import TesserasDht.Lib.Tasks
import TesserasDht.Code.ChunkStore
import TesserasDht.Code.Message
import TesserasDht.Code.Metadata
import TesserasDht.Code.Node
import TesserasDht.Code.RateLimit

/-!
# What the tasks of a node share

`HandlerContext` of `src/node.rs`. A task of the node is a `Lib.Tasks.Task`, and an operation is what
it does under one lock, or one call of the store or of the transport. A call of the chunk store is
one operation here, and a request is sent and awaited by two.
-/

open Lib.Tasks

namespace TesserasDht

/-- The fields of `NodeConfig` that the tasks read. -/
structure HandlerConfig extends NodeConfig where
  maxRelayHops : UInt8
  maxRelayPayload : Nat
  minPowDifficulty : UInt8
  maxChunksPerPeer : UInt32
  clientMode : Bool
  proactiveReplication : Bool

structure HandlerContext where
  crates : Crates
  build : Build
  /-- The secret key of `keypair`. -/
  secret : Bytes32
  pow : PowProof
  localAddr : SocketAddr
  config : HandlerConfig

namespace HandlerContext

def publicKey (ctx : HandlerContext) : Bytes32 := ctx.crates.publicKey ctx.secret

def nodeId (ctx : HandlerContext) : NodeId := deriveNodeId ctx.crates.sha256 ctx.publicKey

end HandlerContext

/-- Whether a message that a node sends is its own or forwarded for another. -/
inductive Origin
  | own
  | forwarded
deriving DecidableEq, Repr

/-- A message and the addresses that are tried for it. -/
structure Outgoing where
  origin : Origin
  addrs : List SocketAddr
  msg : Message
deriving DecidableEq, Repr

/-- The shared state, with what was sent so far. -/
structure NodeState where
  routingTable : RoutingTable
  providers : List ProviderRow
  /-- The `routing_table` table of the metadata store. -/
  savedPeers : List NodeInfoSerde
  chunks : ChunkStore
  relayLimiter : RateLimiter
  writeLimiter : RateLimiter
  peerChunkCounts : Bytes32 → Option UInt32
  externalAddr : Option SocketAddr
  requests : List Outgoing
  responses : List (SocketAddr × Message)
  /-- The nodes for which `replicate_chunks_to_node` was spawned. -/
  spawned : List NodeInfo

/-! ## Peers in other forms -/

def NodeInfo.toSerde (n : NodeInfo) : NodeInfoSerde := ⟨n.nodeId.asBytes, n.publicKey, n.addresses⟩

def NodeInfoSerde.toInfo (now : Nat) (n : NodeInfoSerde) : NodeInfo :=
  NodeInfo.new now (NodeId.fromBytes n.nodeId) n.publicKey n.addresses

def RoutingTable.allNodesSerde (t : RoutingTable) : List NodeInfoSerde :=
  t.buckets.flatMap fun b => b.nodes.map NodeInfo.toSerde

/-- `INSERT OR REPLACE` for each peer, then `DELETE` for all others. -/
def savePeersBatch (peers rows : List NodeInfoSerde) : List NodeInfoSerde :=
  let replaced := peers.foldl (fun rows p => rows.filter (fun r => r.nodeId ≠ p.nodeId) ++ [p]) rows
  replaced.filter fun r => r.nodeId ∈ peers.map NodeInfoSerde.nodeId

def getProviders (now : Nat) (contentKey : Hash) (rows : List ProviderRow) : List NodeInfoSerde :=
  (rows.filter fun r => r.contentKey = contentKey ∧ toI64 now < r.expiresAt).map fun r =>
    ⟨r.nodeId.asBytes, r.publicKey, r.addresses⟩

/-! ## Chunk counts -/

/-- Take a place in the quota of a peer, if there is one. -/
def reserveCount (max : UInt32) (sender : Bytes32) (counts : Bytes32 → Option UInt32) :
    Bool × (Bytes32 → Option UInt32) :=
  let count := (counts sender).getD 0
  if max ≤ count then
    (false, Function.update counts sender (some count))
  else
    (true, Function.update counts sender (some (count + 1)))

/-- `or_insert(1)` and `saturating_sub(1)`. -/
def rollbackCount (sender : Bytes32) (counts : Bytes32 → Option UInt32) : Bytes32 → Option UInt32 :=
  let count := (counts sender).getD 1
  Function.update counts sender (some (if count = 0 then 0 else count - 1))

def retainCounts (known : List Bytes32) (counts : Bytes32 → Option UInt32) : Bytes32 → Option UInt32 :=
  fun sender => if sender ∈ known then counts sender else none

/-! ## Operations -/

inductive Op
  /-- `Instant::now()`. -/
  | now
  /-- `rand::random()`. -/
  | random
  | insert (node : NodeInfo)
  | evictAndInsert (failedId : NodeId) (newNode : NodeInfo)
  | recordFailure (nodeId : NodeId) (maxFailures : UInt8)
  | recordFailureByAddr (addr : SocketAddr) (maxFailures : UInt8)
  | closestNodes (target : NodeId) (count : Nat)
  | allNodesSerde
  | savePeersBatch (peers : List NodeInfoSerde)
  | getProviders (key : Hash)
  | addProvider (key : Hash) (nodeId : NodeId) (publicKey : Bytes32) (addresses : List SocketAddr)
      (ttl : Nat)
  | getOwnProviders (nodeId : NodeId)
  | getChunk (hash : Hash)
  | putChunk (hash : Hash) (data : Bytes)
  | checkRelay (ip : IpAddr)
  | checkWrite (ip : IpAddr)
  | cleanupLimiters (maxIdle : Nat)
  | reserveCount (sender : Bytes32) (max : UInt32)
  | rollbackCount (sender : Bytes32)
  | retainCounts (known : List Bytes32)
  | externalAddr
  | setExternalAddr (addr : SocketAddr)
  | send (out : Outgoing)
  /-- Wait for the answer to the request with this number. -/
  | await (request : Nat)
  | sendResponse (addr : SocketAddr) (msg : Message)
  | spawnReplicate (newNode : NodeInfo)

/-- What an operation returns. An error of the metadata store is `none`. -/
@[reducible]
def Op.Result : Op → Type
  | .now => Nat
  | .random => UInt64
  | .insert _ => Outcome InsertResult
  | .evictAndInsert _ _ => Bool
  | .closestNodes _ _ => List NodeInfo
  | .allNodesSerde => List NodeInfoSerde
  | .savePeersBatch _ => Option Unit
  | .getProviders _ => Option (List NodeInfoSerde)
  | .addProvider _ _ _ _ _ => Option Unit
  | .getOwnProviders _ => Option (List Hash)
  | .getChunk _ => Outcome (Option Bytes)
  | .putChunk _ _ => Outcome Unit
  | .checkRelay _ => Bool
  | .checkWrite _ => Bool
  | .reserveCount _ _ => Bool
  | .externalAddr => Option SocketAddr
  | .send _ => Nat
  | .await _ => Option Message
  | _ => Unit

abbrev NodeTask := Task Op Op.Result

abbrev act (e : Op) : NodeTask e.Result := perform e

/-- What an operation meets outside the node: the two clocks, random numbers, failing calls, and the
answer of a peer. -/
structure Input where
  now : Nat
  seconds : Nat
  random : UInt64
  faults : ChunkStore.Faults
  metadataFails : Bool
  answer : Option Message

/-- What an operation does and returns. -/
def Op.apply (b : Build) (sha256 : Bytes → Hash) :
    (e : Op) → Input → NodeState → e.Result × NodeState
  | .now, i, s => (i.now, s)
  | .random, i, s => (i.random, s)
  | .insert node, i, s =>
    match s.routingTable.insert i.now node with
    | .ok (t, r) => (.ok r, { s with routingTable := t })
    | .error e => (.error e, s)
  | .evictAndInsert f node, i, s =>
    let (t, r) := s.routingTable.evictAndInsert i.now f node
    (r, { s with routingTable := t })
  | .recordFailure id max, _, s => ((), { s with routingTable := s.routingTable.recordFailure id max })
  | .recordFailureByAddr addr max, _, s =>
    ((), { s with routingTable := s.routingTable.recordFailureByAddr addr max })
  | .closestNodes target count, _, s => (s.routingTable.closestNodes target count, s)
  | .allNodesSerde, _, s => (s.routingTable.allNodesSerde, s)
  | .savePeersBatch peers, i, s =>
    if i.metadataFails then (none, s)
    else (some (), { s with savedPeers := TesserasDht.savePeersBatch peers s.savedPeers })
  | .getProviders key, i, s =>
    (if i.metadataFails then none else some (TesserasDht.getProviders i.seconds key s.providers), s)
  | .addProvider key id pk addrs ttl, i, s =>
    if i.metadataFails then (none, s)
    else
      match TesserasDht.addProvider b i.seconds ttl key id pk addrs s.providers with
      | .ok providers => (some (), { s with providers })
      | .error _ => (none, s)
  | .getOwnProviders id, i, s =>
    (if i.metadataFails then none else some (TesserasDht.getOwnProviders i.seconds id s.providers), s)
  | .getChunk hash, i, s =>
    let (r, chunks) := s.chunks.get sha256 i.faults hash
    (r, { s with chunks })
  | .putChunk hash data, i, s =>
    let (r, chunks) := s.chunks.put sha256 b i.faults hash data
    (r, { s with chunks })
  | .checkRelay ip, i, s =>
    let (r, relayLimiter) := s.relayLimiter.check i.now ip
    (r, { s with relayLimiter })
  | .checkWrite ip, i, s =>
    let (r, writeLimiter) := s.writeLimiter.check i.now ip
    (r, { s with writeLimiter })
  | .cleanupLimiters maxIdle, i, s =>
    ((), { s with
      relayLimiter := s.relayLimiter.cleanup i.now maxIdle
      writeLimiter := s.writeLimiter.cleanup i.now maxIdle })
  | .reserveCount sender max, _, s =>
    let (r, peerChunkCounts) := TesserasDht.reserveCount max sender s.peerChunkCounts
    (r, { s with peerChunkCounts })
  | .rollbackCount sender, _, s =>
    ((), { s with peerChunkCounts := TesserasDht.rollbackCount sender s.peerChunkCounts })
  | .retainCounts known, _, s =>
    ((), { s with peerChunkCounts := TesserasDht.retainCounts known s.peerChunkCounts })
  | .externalAddr, _, s => (s.externalAddr, s)
  | .setExternalAddr addr, _, s => ((), { s with externalAddr := some addr })
  | .send out, _, s => (s.requests.length, { s with requests := s.requests ++ [out] })
  | .await _, i, s => (i.answer, s)
  | .sendResponse addr msg, _, s => ((), { s with responses := s.responses ++ [(addr, msg)] })
  | .spawnReplicate node, _, s => ((), { s with spawned := s.spawned ++ [node] })

end TesserasDht
