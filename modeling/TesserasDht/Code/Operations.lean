import TesserasDht.Code.Peers

/-!
# Provider queries and stores

`do_get_providers` of `src/node.rs`, and what `do_store_tessera` asks of other nodes once its blocks
are encoded.
-/

open Lib.Tasks

namespace TesserasDht

/-! ## Provider queries -/

/-- The variables of the round loop. -/
structure ProviderSearch where
  allProviders : List NodeInfoSerde
  candidates : List NodeInfo
  queried : List NodeId
  improved : Bool

namespace ProviderSearch

def toQuery (s : ProviderSearch) (alpha : Nat) : List (NodeId × List SocketAddr) :=
  ((s.candidates.filter fun n => n.nodeId ∉ s.queried ∧ n.addresses ≠ []).take alpha).map
    fun n => (n.nodeId, n.addresses)

/-- One of the closer nodes of an answer. -/
def addCandidate (nodeId : NodeId) (now : Nat) (s : ProviderSearch) (n : NodeInfoSerde) :
    ProviderSearch :=
  let node := n.toInfo now
  if node.nodeId = nodeId then
    s
  else if s.candidates.any fun c => c.nodeId = node.nodeId then
    s
  else
    { s with candidates := s.candidates ++ [node], improved := true }

def sorted (s : ProviderSearch) (target : NodeId) (k : Nat) : ProviderSearch :=
  { s with candidates := (s.candidates.insertionSort (RoutingTable.closer target)).take k }

/-- `retain` with the ids that were seen. -/
def dedup (providers : List NodeInfoSerde) : List NodeInfoSerde :=
  providers.foldl (fun acc p => if acc.any fun q => q.nodeId = p.nodeId then acc else acc ++ [p]) []

end ProviderSearch

namespace HandlerContext

variable (ctx : HandlerContext)

/-- The queries of a round, one after the other. A peer that answers is not marked as seen. -/
def askProviders (key : Hash) :
    List (NodeId × List SocketAddr) → ProviderSearch → NodeTask ProviderSearch
  | [], s => return s
  | (peerId, addrs) :: rest, s => do
    let msg ← ctx.newMessage (.getProvidersRequest key)
    match ← ctx.sendWithNatTraversal addrs peerId msg with
    | none => do
      act (.recordFailure peerId ctx.config.maxFailures)
      askProviders key rest s
    | some resp =>
      match resp.payload with
      | .getProvidersResponse providers closerNodes => do
        let now ← act .now
        let s := { s with allProviders := s.allProviders ++ providers }
        askProviders key rest (closerNodes.foldl (ProviderSearch.addCandidate ctx.nodeId now) s)
      | _ => askProviders key rest s

def providerRounds (key : Hash) : Nat → ProviderSearch → NodeTask ProviderSearch
  | 0, s => return s
  | rounds + 1, s =>
    let queries := s.toQuery ctx.config.alpha
    if queries = [] then
      return s
    else do
      let s ← ctx.askProviders key queries
        { s with queried := s.queried ++ queries.map Prod.fst, improved := false }
      let s := s.sorted (NodeId.fromBytes key) ctx.config.k
      if s.improved then providerRounds key rounds s else return s

def doGetProviders (key : Hash) : NodeTask (List NodeInfoSerde) := do
  let found ← act (.getProviders key)
  let candidates ← act (.closestNodes (NodeId.fromBytes key) ctx.config.k)
  let s ← ctx.providerRounds key 10 ⟨found.getD [], candidates, [ctx.nodeId], false⟩
  return ProviderSearch.dedup s.allProviders

/-! ## Stores -/

/-- A request to each of the peers, with its number. -/
def sendToPeers (payload : Payload) : List NodeInfo → NodeTask (List (NodeId × Nat))
  | [] => return []
  | node :: rest => do
    let msg ← ctx.newMessage payload
    let request ← act (.send ⟨.own, node.addresses, msg⟩)
    let sent ← sendToPeers payload rest
    return (node.nodeId, request) :: sent

/-- The peers that have an address and are not this node. -/
def reachable (peers : List NodeInfo) : List NodeInfo :=
  peers.filter fun p => p.addresses ≠ [] ∧ p.nodeId ≠ ctx.nodeId

/-- The local store first. -/
def putEach : List (Hash × Bytes) → NodeTask (Outcome Unit)
  | [] => return .ok ()
  | (hash, data) :: rest => do
    match ← act (.putChunk hash data) with
    | .error e => return .error e
    | .ok () => putEach rest

/-- `failed_peers` is empty until all requests are answered. -/
def distributeEach (announceAddr : SocketAddr) : List (Hash × Bytes) → NodeTask (List (NodeId × Nat))
  | [] => return []
  | (hash, data) :: rest => do
    let closest ← act (.closestNodes (NodeId.fromBytes hash) ctx.config.k)
    let sent ← ctx.sendToPeers (.putChunkRequest hash data)
      ((ctx.reachable closest).take ctx.config.alpha)
    let _ ← act (.addProvider hash ctx.nodeId ctx.publicKey [announceAddr] ctx.config.providerTtl)
    return sent ++ (← distributeEach announceAddr rest)

def announceEach (announceAddr : SocketAddr) : List (Hash × Bytes) → NodeTask (List (NodeId × Nat))
  | [] => return []
  | (hash, _) :: rest => do
    let closest ← act (.closestNodes (NodeId.fromBytes hash) ctx.config.k)
    let sent ← ctx.sendToPeers (.addProviderRequest hash [announceAddr])
      ((ctx.reachable closest).take ctx.config.alpha)
    return sent ++ (← announceEach announceAddr rest)

/-- The distributor loop over the encoded blocks. -/
def distributeBlocks (announceAddr : SocketAddr) :
    List (List (Hash × Bytes)) → NodeTask (Outcome (List (NodeId × Nat)))
  | [] => return .ok []
  | chunks :: rest => do
    match ← putEach chunks with
    | .error e => return .error e
    | .ok () => do
      let puts ← ctx.distributeEach announceAddr chunks
      let announces ← ctx.announceEach announceAddr chunks
      match ← distributeBlocks announceAddr rest with
      | .error e => return .error e
      | .ok sent => return .ok (puts ++ announces ++ sent)

/-- `join_all`. -/
def awaitPeers : List (NodeId × Nat) → NodeTask (List (NodeId × Option Message))
  | [] => return []
  | (peerId, request) :: rest => do
    let resp ← act (.await request)
    let resps ← awaitPeers rest
    return (peerId, resp) :: resps

/-- The accounting of the results. A peer that answers, whatever it says, is not marked as seen. -/
def settleEach : List (NodeId × Option Message) → NodeTask Unit
  | [] => return ()
  | (_, some _) :: rest => settleEach rest
  | (peerId, none) :: rest => do
    act (.recordFailure peerId ctx.config.maxFailures)
    settleEach rest

/-- `do_store_tessera` with the chunks of the encoded blocks and the manifest. The answers to the
requests about the manifest are dropped. -/
def distributeTessera (blocks : List (List (Hash × Bytes))) (manifest : Hash × Bytes) :
    NodeTask Unit := do
  let external ← act .externalAddr
  let announceAddr := external.getD ctx.localAddr
  match ← ctx.distributeBlocks announceAddr blocks with
  | .error _ => pure ()
  | .ok sent => do
    let results ← awaitPeers sent
    ctx.settleEach results
    match ← act (.putChunk manifest.1 manifest.2) with
    | .error _ => pure ()
    | .ok () => do
      let closest ← act (.closestNodes (NodeId.fromBytes manifest.1) ctx.config.k)
      let puts ← ctx.sendToPeers (.putChunkRequest manifest.1 manifest.2) (ctx.reachable closest)
      let announces ← ctx.sendToPeers (.addProviderRequest manifest.1 [announceAddr])
        (ctx.reachable closest)
      let _ ← awaitPeers (puts ++ announces)
      pure ()

end HandlerContext

/-! ## A node -/

/-- What the node is asked to do. -/
inductive Duty
  | inbound (fromAddr : SocketAddr) (msg : Message)
  | replicate (newNode : NodeInfo)
  /-- A query of a lookup. -/
  | query (target peerId : NodeId) (addrs : List SocketAddr)
  | bootstrap (addrs : List SocketAddr)
  | getProviders (key : Hash)
  | store (blocks : List (List (Hash × Bytes))) (manifest : Hash × Bytes)
  /-- A request whose answer does not touch the routing table, as one for a chunk. -/
  | request (addrs : List SocketAddr) (target : NodeId) (payload : Payload)
  | save
  | cleanup

def HandlerContext.perform (ctx : HandlerContext) : Duty → NodeTask Unit
  | .inbound fromAddr msg => ctx.handleInboundMessage fromAddr msg
  | .replicate newNode => ctx.replicateChunksToNode newNode
  | .query target peerId addrs => do
    let _ ← ctx.queryPeer target peerId addrs
    pure ()
  | .bootstrap addrs => ctx.doBootstrap addrs
  | .getProviders key => do
    let _ ← ctx.doGetProviders key
    pure ()
  | .store blocks manifest => ctx.distributeTessera blocks manifest
  | .request addrs target payload => do
    let msg ← ctx.newMessage payload
    let _ ← ctx.sendWithNatTraversal addrs target msg
    pure ()
  | .save => saveRoutingTable
  | .cleanup => cleanupTick

end TesserasDht
