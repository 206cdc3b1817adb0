import Mathlib.Data.List.Infix
import TesserasDht.Code.Erasure
import TesserasDht.Code.ChunkStore
import TesserasDht.Code.Metadata
import TesserasDht.Code.Routing

/-!
# Storing and retrieving a tessera

`src/node.rs`. MessagePack and base64 are parameters. What the network, the clock and the other tasks
of the node do comes from outside as well.
-/

open Lib.Slices

namespace TesserasDht

/-! ## Tokens and manifests -/

structure TesseraManifest where
  h : List Bytes
  d : UInt64
  p : UInt64
  l : UInt64
  b : UInt64
deriving DecidableEq, Repr

structure StoreTesseraResultToken where
  h : List Bytes
  d : UInt64
  p : UInt64
  l : UInt64
  b : UInt64
  m : Bytes
deriving DecidableEq, Repr

/-- `rmp_serde` and the URL-safe base64 engine. An error is the text it prints. -/
structure Codec where
  encodeManifest : TesseraManifest → Bytes
  decodeManifest : Bytes → Except String TesseraManifest
  decodeToken : Bytes → Except String StoreTesseraResultToken
  decodeBase64 : String → Except String Bytes

structure StoreTesseraResult where
  chunkHashes : List Hash
  config : ErasureConfig
  originalLen : UInt64
  blockSize : UInt64
  manifestHash : Option Hash
deriving DecidableEq, Repr

/-- `.map_err(|e| TesseraError::Serialization(format!("<what>: {}", e)))?` -/
def orSerialization {α : Type} (what : String) : Except String α → Outcome α
  | .ok a => .ok a
  | .error e => fail (.serialization s!"{what}: {e}")

theorem orSerialization_ok {α : Type} {what : String} {x : Except String α} {a : α}
    (h : orSerialization what x = .ok a) : x = .ok a := by
  cases x with
  | ok => exact congrArg Except.ok (Except.ok.inj h)
  | error => cases h

/-- The chunk hashes of a token or of a manifest. -/
def parseHashes (hs : List Bytes) : Outcome (List Hash) :=
  hs.mapM fun v => match toArray32 v with
    | some h => .ok h
    | none => fail (.serialization "chunk hash must be 32 bytes")

def StoreTesseraResult.fromStr (codec : Codec) (b : Build) (s : String) :
    Outcome StoreTesseraResult := do
  let bytes ← orSerialization "base64" (codec.decodeBase64 s)
  let token ← orSerialization "msgpack" (codec.decodeToken bytes)
  if token.m ≠ [] then
    match toArray32 token.m with
    | none => fail (.serialization "manifest hash must be 32 bytes")
    | some mh =>
      let config ← ErasureConfig.new b 10 4
      return { chunkHashes := [], config, originalLen := 0, blockSize := 0, manifestHash := some mh }
  else
    let chunkHashes ← parseHashes token.h
    let config ← ErasureConfig.new b token.d token.p
    return { chunkHashes, config, originalLen := token.l, blockSize := token.b, manifestHash := none }

/-! ## The node -/

structure NodeConfig where
  k : Nat
  alpha : Nat
  maxFailures : UInt8
  providerTtl : Nat

structure Node where
  nodeId : NodeId
  publicKey : Bytes32
  config : NodeConfig
  externalAddr : Option SocketAddr
  localAddr : SocketAddr
  routingTable : RoutingTable
  chunks : ChunkStore
  providers : List ProviderRow

def Node.bestAddr (n : Node) : SocketAddr := n.externalAddr.getD n.localAddr

/-- The peers that a request may go to: they have an address and are not this node. -/
def Node.reachable (n : Node) (peers : List NodeInfo) : List NodeInfo :=
  peers.filter fun p => p.addresses ≠ [] ∧ p.nodeId ≠ n.nodeId

/-! ## Store -/

inductive Request
  | putChunk (chunkHash : Hash) (data : Bytes)
  | addProvider (key : Hash) (addresses : List SocketAddr)
deriving DecidableEq, Repr

/-- How a request that `do_store_tessera` waits for ends. An error is the text it prints. -/
inductive RpcResult
  | putChunkResponse (ok : Bool)
  | otherResponse
  | error (text : String)
  | panicked
  | timedOut

/-- What happens around a call of `do_store_tessera`. The `i`-th chunk, over all blocks, meets the
faults and the clock reading `i`, and the manifest has faults of its own. The `n`-th request gets the
result `n`. -/
structure StoreEnv where
  faults : Nat → ChunkStore.Faults
  manifestFaults : ChunkStore.Faults
  clock : Nat → Nat
  metadataFails : Nat → Bool
  rpc : Nat → RpcResult

structure StoreState where
  node : Node
  requests : List (NodeId × Request)
  failedPeers : List NodeId
  chunkHashes : List Hash

section

variable (rs : ReedSolomon) (sha256 : Bytes → Hash) (codec : Codec) (b : Build) (env : StoreEnv)

/-- Put the chunks of a block, from the `i`-th chunk on, into the local store. -/
def putChunks (i : Nat) : List (Hash × Bytes) → Node → Outcome Unit × Node
  | [], node => (.ok (), node)
  | (hash, data) :: rest, node =>
    match node.chunks.put sha256 b (env.faults i) hash data with
    | (.error e, chunks) => (.error e, { node with chunks })
    | (.ok (), chunks) => putChunks (i + 1) rest { node with chunks }

/-- The own provider record of the `i`-th chunk. The result is dropped, whatever it is. -/
def recordProvider (i : Nat) (hash : Hash) (node : Node) : Node :=
  if env.metadataFails i then
    node
  else
    match addProvider b (env.clock i) node.config.providerTtl hash node.nodeId node.publicKey
        [node.bestAddr] node.providers with
    | .ok providers => { node with providers }
    | .error _ => node

def recordProviders (i : Nat) : List Hash → Node → Node
  | [], node => node
  | hash :: rest, node => recordProviders (i + 1) rest (recordProvider b env i hash node)

/-- The peers that get a request about `hash`: the closest `alpha` that are not known to fail. -/
def storeTargets (st : StoreState) (hash : Hash) : List NodeInfo :=
  let closest := st.node.routingTable.closestNodes (NodeId.fromBytes hash) st.node.config.k
  ((st.node.reachable closest).filter fun p => p.nodeId ∉ st.failedPeers).take st.node.config.alpha

def storeBlock (encoded : EncodedTessera) (st : StoreState) : Outcome Unit × StoreState :=
  let i := st.chunkHashes.length
  let chunks := encoded.chunkHashes.zip encoded.chunks
  match putChunks sha256 b env i chunks st.node with
  | (.error e, node) => (.error e, { st with node })
  | (.ok (), node) =>
    let st := { st with node }
    let puts := chunks.flatMap fun c =>
      (storeTargets st c.1).map fun p => (p.nodeId, Request.putChunk c.1 c.2)
    let announces := encoded.chunkHashes.flatMap fun hash =>
      (storeTargets st hash).map fun p => (p.nodeId, Request.addProvider hash [node.bestAddr])
    (.ok (), { st with
      node := recordProviders b env i (chunks.map Prod.fst) node
      requests := st.requests ++ puts ++ announces
      chunkHashes := st.chunkHashes ++ encoded.chunkHashes })

/-- The encoder hands over one block after the other. The first error of either side is the result. -/
def storeBlocks (data : Bytes) (config : ErasureConfig) (blockSize : Nat) :
    List Nat → StoreState → Outcome Unit × StoreState
  | [], st => (.ok (), st)
  | i :: rest, st =>
    match encode rs sha256 b (sliceAt data blockSize i) config with
    | .error (.panic _) => (fail (.erasureCoding "encoder panicked"), st)
    | .error (.error e) => (fail e, st)
    | .ok encoded =>
      match storeBlock sha256 b env encoded st with
      | (.error e, st) => (.error e, st)
      | (.ok (), st) => storeBlocks data config blockSize rest st

/-- The failed peers and the routing table after one result. -/
def classify (maxFailures : UInt8) (peer : NodeId) (result : RpcResult)
    (s : List NodeId × RoutingTable) : List NodeId × RoutingTable :=
  match result with
  | .putChunkResponse true => s
  | .putChunkResponse false => (s.1.insert peer, s.2)
  | .otherResponse => (s.1.insert peer, s.2)
  | .error text =>
    if "peer marked as failed".toList <:+: text.toList then s
    else (s.1.insert peer, s.2.recordFailure peer maxFailures)
  | .panicked => (s.1.insert peer, s.2.recordFailure peer maxFailures)
  | .timedOut => (s.1.insert peer, s.2.recordFailure peer maxFailures)

def awaitRequests (st : StoreState) : StoreState :=
  let (failedPeers, routingTable) := st.requests.zipIdx.foldl
    (fun s r => classify st.node.config.maxFailures r.1.1 (env.rpc r.2) s)
    (st.failedPeers, st.node.routingTable)
  { st with failedPeers, node := { st.node with routingTable } }

/-- The manifest of a tessera that was stored with the default block size. -/
def storeManifest (chunkHashes : List Hash) (config : ErasureConfig) (originalLen : Nat) :
    TesseraManifest :=
  { h := chunkHashes.map Bytes32.bytes, d := config.dataShards, p := config.parityShards,
    l := .ofNat originalLen, b := .ofNat defaultBlockSize }

def doStoreTessera (node : Node) (data : VecU8) (config : ErasureConfig) :
    Outcome StoreTesseraResult × StoreState :=
  let blockSize := defaultBlockSize
  let numBlocks := if data.val = [] then 1 else divCeil data.val.length blockSize
  let st : StoreState := { node, requests := [], failedPeers := [], chunkHashes := [] }
  match storeBlocks rs sha256 b env data config blockSize (List.range numBlocks) st with
  | (.error e, st) => (.error e, st)
  | (.ok (), st) =>
    let st := awaitRequests env st
    let manifestBytes := codec.encodeManifest (storeManifest st.chunkHashes config data.val.length)
    let manifestHash := sha256 manifestBytes
    match st.node.chunks.put sha256 b env.manifestFaults manifestHash manifestBytes with
    | (.error e, chunks) => (.error e, { st with node := { st.node with chunks } })
    | (.ok (), chunks) =>
      let st := { st with node := { st.node with chunks } }
      let closest := st.node.reachable
        (st.node.routingTable.closestNodes (NodeId.fromBytes manifestHash) st.node.config.k)
      let puts := closest.map fun p => (p.nodeId, Request.putChunk manifestHash manifestBytes)
      let announces := closest.map fun p =>
        (p.nodeId, Request.addProvider manifestHash [node.bestAddr])
      (.ok { chunkHashes := st.chunkHashes, config, originalLen := .ofNat data.val.length,
             blockSize := .ofNat blockSize, manifestHash := some manifestHash },
        { st with requests := st.requests ++ puts ++ announces })

end

/-! ## Retrieve -/

/-- What happens while chunk `i` is fetched: other tasks change the node first, the file system fails
in places, each peer that is asked answers some bytes or nothing, and the answers come in some
order. -/
structure Net where
  meanwhile : Nat → Node → Node
  faults : Nat → ChunkStore.Faults
  answer : Nat → NodeInfo → Option Bytes
  order : Nat → List NodeInfo → List NodeInfo
  order_perm : ∀ i peers, (order i peers).Perm peers

/-- The peers that are asked for a chunk. -/
def Node.queried (n : Node) (hash : Hash) : List NodeInfo :=
  n.reachable ((n.routingTable.closestNodes (NodeId.fromBytes hash) n.config.k).take n.config.k)

section

variable (rs : ReedSolomon) (sha256 : Bytes → Hash) (codec : Codec) (b : Build) (net : Net)

/-- An answer counts if it is not empty and has the hash that was asked for. -/
def checkAnswer (hash : Hash) (data : Bytes) : Option Bytes :=
  if data ≠ [] ∧ sha256 data = hash then some data else none

/-- The first answer that counts. -/
def firstAnswer (i : Nat) (hash : Hash) (peers : List NodeInfo) : Option Bytes :=
  (net.order i peers).findSome? fun peer => (net.answer i peer).bind (checkAnswer sha256 hash)

def fetchChunk (i : Nat) (hash : Hash) (node : Node) : Option Bytes × Node :=
  let node := net.meanwhile i node
  match node.chunks.get sha256 (net.faults i) hash with
  | (.ok (some data), chunks) => (some data, { node with chunks })
  | (_, chunks) =>
    let node := { node with chunks }
    match firstAnswer sha256 net i hash (node.queried hash) with
    | some data =>
      (some data, { node with chunks := (node.chunks.put sha256 b (net.faults i) hash data).2 })
    | none => (none, node)

/-- The loop over the chunk hashes, from chunk `i` on. -/
def fetchChunks (i : Nat) : List Hash → Node → List (Option Bytes) × Node
  | [], node => ([], node)
  | hash :: rest, node =>
    let (shard, node) := fetchChunk sha256 b net i hash node
    let (shards, node) := fetchChunks (i + 1) rest node
    (shard :: shards, node)

/-- `block_size == 0` is the format of one block. -/
def decodeStage (shards : List (Option Bytes)) (config : ErasureConfig) (originalLen blockSize : Nat) :
    Outcome Bytes :=
  if blockSize = 0 then
    decode rs b shards config originalLen
  else do
    let spc ← config.totalShards b
    if spc = 0 then
      .error (.panic .zeroChunkSize)
    else
      decodeBlocks rs b (chunks spc shards) config blockSize originalLen

def doRetrieveTesseraInner (chunkHashes : List Hash) (config : ErasureConfig)
    (originalLen blockSize : Nat) (node : Node) : Outcome Bytes × Node :=
  let (shards, node) := fetchChunks sha256 b net 0 chunkHashes node
  (decodeStage rs b shards config originalLen blockSize, node)

/-- The manifest from the local store, or from the network after a lookup of its hash. -/
def fetchManifest (lookup : Node → Node) (mh : Hash) (node : Node) : Outcome Bytes × Node :=
  let node := net.meanwhile 0 node
  match node.chunks.get sha256 (net.faults 0) mh with
  | (.ok (some data), chunks) => (.ok data, { node with chunks })
  | (_, chunks) =>
    let node := lookup { node with chunks }
    match firstAnswer sha256 net 0 mh (node.queried mh) with
    | some data => (.ok data, node)
    | none => (fail (.network "manifest chunk not found"), node)

/-- What a manifest says in place of the fields of the token. -/
def parseManifest (data : Bytes) : Outcome StoreTesseraResult := do
  let manifest ← orSerialization "manifest" (codec.decodeManifest data)
  let chunkHashes ← parseHashes manifest.h
  let config ← ErasureConfig.new b manifest.d manifest.p
  return { chunkHashes, config, originalLen := manifest.l, blockSize := manifest.b,
           manifestHash := none }

/-- The timeout of two minutes does not fire here. -/
def doRetrieveTessera (manifestNet : Net) (lookup : Node → Node) (r : StoreTesseraResult)
    (node : Node) : Outcome Bytes × Node :=
  let retrieve (r : StoreTesseraResult) (node : Node) :=
    doRetrieveTesseraInner rs sha256 b net r.chunkHashes r.config r.originalLen.toNat
      r.blockSize.toNat node
  match r.manifestHash, r.chunkHashes with
  | some mh, [] =>
    match fetchManifest sha256 manifestNet lookup mh node with
    | (.error e, node) => (.error e, node)
    | (.ok data, node) =>
      match parseManifest codec b data with
      | .error e => (.error e, node)
      | .ok r => retrieve r node
  | _, _ => retrieve r node

end

end TesserasDht
