import TesserasDht.Code.Peers
import TesserasDht.Lib.Tables

/-!
# The metadata store

`src/storage/sqlite.rs` with the columns as SQLite keeps them: ids and keys are blobs, and a list of
addresses is JSON text. `TesserasDht.savePeersBatch`, `addProvider` and the reads of
`TesserasDht` are the same calls over the decoded rows.
-/

open Lib.Tables

namespace TesserasDht

/-- What `serde_json` does with a list of addresses. -/
structure Json where
  toString : List SocketAddr → Except String String
  fromStr : String → Except String (List SocketAddr)

namespace Json

/-- The list can be written, and the text is read back as the list. -/
def Keeps (json : Json) (addrs : List SocketAddr) : Prop :=
  ∃ text, json.toString addrs = .ok text ∧ json.fromStr text = .ok addrs

def serialize (json : Json) (addrs : List SocketAddr) : Outcome String :=
  match json.toString addrs with
  | .ok text => .ok text
  | .error e => fail (.serialization e)

theorem serialize_ok {json : Json} {addrs : List SocketAddr} {text : String}
    (h : json.serialize addrs = .ok text) : json.toString addrs = .ok text := by
  unfold Json.serialize at h
  split at h
  next he =>
    cases h
    exact he
  next => cases h

theorem serialize_of_keeps {json : Json} {addrs : List SocketAddr} (h : json.Keeps addrs) :
    ∃ text, json.serialize addrs = .ok text ∧ json.fromStr text = .ok addrs := by
  obtain ⟨text, hto, hfrom⟩ := h
  exact ⟨text, by rw [Json.serialize, hto], hfrom⟩

end Json

/-- The error of the `n`-th statement of a call, if it fails. -/
abbrev SqlFaults := Nat → Option String

def SqlFaults.check (faults : SqlFaults) (n : Nat) : Outcome Unit :=
  match faults n with
  | none => .ok ()
  | some e => fail (.storage e)

/-- A row of `routing_table`, with the primary key `node_id`. -/
structure PeerRow where
  nodeId : Bytes
  publicKey : Bytes
  addresses : String
  lastSeen : Nat

/-- A row of `providers`, with the primary key `(content_key, node_id)`. -/
structure ProvidersRow where
  contentKey : Bytes
  nodeId : Bytes
  publicKey : Bytes
  addresses : String
  expiresAt : Int

def ProvidersRow.key (r : ProvidersRow) : Bytes × Bytes := (r.contentKey, r.nodeId)

namespace MetadataStore

/-- A row with a blob of another length, or with text that is not JSON, is skipped. -/
def readPeer (json : Json) (nodeId publicKey : Bytes) (addresses : String) : Option NodeInfoSerde := do
  let nodeId ← toArray32 nodeId
  let publicKey ← toArray32 publicKey
  let addresses ← (json.fromStr addresses).toOption
  return ⟨nodeId, publicKey, addresses⟩

/-! ## Peers -/

/-- The `for` loop of `save_peers_batch`, from statement `n` on. -/
def upsertPeers (json : Json) (faults : SqlFaults) (now : Nat) :
    Nat → List NodeInfoSerde → List PeerRow → Outcome Unit × List PeerRow
  | _, [], rows => (.ok (), rows)
  | n, peer :: rest, rows =>
    match json.serialize peer.addresses, faults.check n with
    | .error e, _ => (.error e, rows)
    | .ok _, .error e => (.error e, rows)
    | .ok addresses, .ok () =>
      upsertPeers json faults now (n + 1) rest
        (replace PeerRow.nodeId rows ⟨peer.nodeId.bytes, peer.publicKey.bytes, addresses, now⟩)

/-- `DELETE FROM routing_table`, or the same with `WHERE node_id NOT IN (..)`. -/
def deleteStale (peers : List NodeInfoSerde) (rows : List PeerRow) : List PeerRow :=
  if peers.isEmpty then [] else retain PeerRow.nodeId (peers.map fun p => p.nodeId.bytes) rows

/-- Statement 0 opens the transaction, and the last one commits it. -/
def savePeersBatch (json : Json) (faults : SqlFaults) (now : Nat) (peers : List NodeInfoSerde)
    (rows : List PeerRow) : Outcome Unit × List PeerRow :=
  match faults.check 0 with
  | .error e => (.error e, rows)
  | .ok () =>
    let body (rows : List PeerRow) : Outcome Unit × List PeerRow :=
      match upsertPeers json faults now 1 peers rows with
      | (.error e, rows) => (.error e, rows)
      | (.ok (), rows) =>
        match faults.check (peers.length + 1) with
        | .error e => (.error e, rows)
        | .ok () => (.ok (), deleteStale peers rows)
    transaction body (faults.check (peers.length + 2)) rows

/-- The rows come in the order in which the database reads them. -/
def loadPeers (json : Json) (rows : List PeerRow) : List NodeInfoSerde :=
  rows.filterMap fun r => readPeer json r.nodeId r.publicKey r.addresses

/-! ## Providers -/

def addProvider (json : Json) (b : Build) (now ttl : Nat) (contentKey : Hash) (nodeId publicKey : Bytes32)
    (addresses : List SocketAddr) (rows : List ProvidersRow) : Outcome (List ProvidersRow) := do
  let addrStr ← json.serialize addresses
  let expiresAt ← b.add now ttl
  return replace ProvidersRow.key rows
    ⟨contentKey.bytes, nodeId.bytes, publicKey.bytes, addrStr, toI64 expiresAt⟩

def getProviders (json : Json) (now : Nat) (contentKey : Hash) (rows : List ProvidersRow) :
    List NodeInfoSerde :=
  (rows.filter fun r => r.contentKey = contentKey.bytes ∧ toI64 now < r.expiresAt).filterMap fun r =>
    readPeer json r.nodeId r.publicKey r.addresses

/-- `SELECT DISTINCT content_key`. -/
def getOwnProviders (now : Nat) (nodeId : Bytes32) (rows : List ProvidersRow) : List Hash :=
  ((rows.filter fun r => r.nodeId = nodeId.bytes ∧ toI64 now < r.expiresAt).map
    ProvidersRow.contentKey).dedup.filterMap toArray32

/-- The rows that are left, and how many were deleted. -/
def cleanupExpiredProviders (now : Nat) (rows : List ProvidersRow) : List ProvidersRow × Nat :=
  (rows.filter fun r => ¬ r.expiresAt ≤ toI64 now, rows.countP fun r => r.expiresAt ≤ toI64 now)

end MetadataStore

theorem readPeer_nodeId {json : Json} {nodeId publicKey : Bytes} {addresses : String} {p : NodeInfoSerde}
    (h : MetadataStore.readPeer json nodeId publicKey addresses = some p) : p.nodeId.bytes = nodeId := by
  obtain ⟨id, hid, h⟩ := Option.bind_eq_some_iff.mp h
  obtain ⟨_, -, h⟩ := Option.bind_eq_some_iff.mp h
  obtain ⟨_, -, h⟩ := Option.bind_eq_some_iff.mp h
  cases h
  unfold toArray32 at hid
  split at hid
  next =>
    cases hid
    rfl
  next => cases hid

end TesserasDht
