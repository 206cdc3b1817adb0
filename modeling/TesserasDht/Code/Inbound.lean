import TesserasDht.Code.Context

/-!
# Inbound messages

`handle_inbound_message` of `src/node.rs`, and what it calls. An error is only looked at where the
source looks at it, so a failed request is `none`.
-/

open Lib.Tasks

namespace TesserasDht

/-! ## Requests -/

/-- `transport.send_request`, and `send_request_any` for more than one address. -/
def sendRequestAny (origin : Origin) (addrs : List SocketAddr) (msg : Message) :
    NodeTask (Option Message) :=
  if addrs = [] then
    pure none
  else do
    let request ← act (.send ⟨origin, addrs, msg⟩)
    act (.await request)

namespace HandlerContext

variable (ctx : HandlerContext)

/-- `Message::new` with the identity of the node, and `sign`. -/
def ownMessage (clientMode : Bool) (payload : Payload) : NodeTask Message := do
  let msgId ← act .random
  let msg := Message.new msgId ctx.nodeId.asBytes ctx.publicKey ctx.pow payload
  return { msg with clientMode }.sign ctx.crates ctx.secret

/-- `new_message` and `sign`. -/
def newMessage (payload : Payload) : NodeTask Message := ctx.ownMessage ctx.config.clientMode payload

/-! ## Checks -/

inductive Rejection
  | senderKey
  | senderId
  | pow
  | signature
  | protocolVersion
deriving DecidableEq, Repr

/-- The first check that a message fails. -/
def rejection (msg : Message) : Option Rejection :=
  if !ctx.crates.validKey msg.senderKey then
    some .senderKey
  else if !verifyNodeId ctx.crates.sha256 (NodeId.fromBytes msg.senderId) msg.senderKey then
    some .senderId
  else if !msg.powProof.verifyWithMinDifficulty ctx.crates.sha256 msg.senderKey
      ctx.config.minPowDifficulty then
    some .pow
  else if !msg.verifySignature ctx.crates then
    some .signature
  else if msg.protocolVersion ≠ protocolVersion then
    some .protocolVersion
  else
    none

/-- The protocol version of an inner message is not looked at. -/
def verifyInnerMessage (msg : Message) : Bool :=
  if !ctx.crates.validKey msg.senderKey then
    false
  else if !verifyNodeId ctx.crates.sha256 (NodeId.fromBytes msg.senderId) msg.senderKey then
    false
  else if !msg.powProof.verifyWithMinDifficulty ctx.crates.sha256 msg.senderKey
      ctx.config.minPowDifficulty then
    false
  else if !msg.verifySignature ctx.crates then
    false
  else
    true

/-! ## The sender -/

/-- Ping the peer that `insert` reported, and replace it if it does not answer. -/
def evictUnresponsive (lrsNodeId : NodeId) (nodeInfo : NodeInfo) : NodeTask Unit := do
  let closest ← act (.closestNodes lrsNodeId 1)
  match (closest.find? fun n => n.nodeId = lrsNodeId).bind fun n => n.addresses.head? with
  | none => pure ()
  | some addr => do
    let ping ← ctx.ownMessage false .pingRequest
    match ← sendRequestAny .own [addr] ping with
    | some _ => pure ()
    | none => do
      let _ ← act (.evictAndInsert lrsNodeId nodeInfo)
      pure ()

/-- A panic of `insert` ends the task. -/
def insertSender (fromAddr : SocketAddr) (msg : Message) : NodeTask (Outcome Unit) := do
  let now ← act .now
  let nodeInfo := NodeInfo.new now (NodeId.fromBytes msg.senderId) msg.senderKey [fromAddr]
  match ← act (.insert nodeInfo) with
  | .error e => return .error e
  | .ok .inserted =>
    if ctx.config.proactiveReplication then do
      act (.spawnReplicate nodeInfo)
      return .ok ()
    else
      return .ok ()
  | .ok (.bucketFull lrsNodeId) => do
    ctx.evictUnresponsive lrsNodeId nodeInfo
    return .ok ()
  | .ok .updated => return .ok ()

/-! ## Requests of other nodes -/

def putChunk (fromAddr : SocketAddr) (senderId : Bytes32) (chunkHash : Hash) (data : Bytes) :
    NodeTask Payload := do
  if ← act (.checkWrite fromAddr.ip) then
    if ← act (.reserveCount senderId ctx.config.maxChunksPerPeer) then
      match ← act (.putChunk chunkHash data) with
      | .ok () => return .putChunkResponse true
      | .error _ => do
        act (.rollbackCount senderId)
        return .putChunkResponse false
    else
      return .putChunkResponse false
  else
    return .putChunkResponse false

def refusedRelay : Payload := .relayResponse false []

/-- Send the inner message to the target, if the target is known. -/
def forward (targetId : Bytes32) (inner : Message) : NodeTask Payload := do
  let target := NodeId.fromBytes targetId
  let closest ← act (.closestNodes target 1)
  match closest.find? fun n => n.nodeId = target ∧ n.addresses ≠ [] with
  | none => return refusedRelay
  | some node =>
    match ← sendRequestAny .forwarded node.addresses inner with
    | none => return refusedRelay
    | some resp =>
      match ctx.crates.toBytes resp with
      | some bytes => return .relayResponse true bytes
      | none => return refusedRelay

def relay (fromAddr : SocketAddr) (targetId : Bytes32) (payload : Bytes) (relayHops : UInt8) :
    NodeTask Payload :=
  if ctx.config.maxRelayHops ≤ relayHops then
    return refusedRelay
  else if ctx.config.maxRelayPayload < payload.length then
    return refusedRelay
  else do
    if ← act (.checkRelay fromAddr.ip) then
      match ctx.crates.fromBytes payload with
      | none => return refusedRelay
      | some inner =>
        if inner.payload.isRelayRequest then
          return refusedRelay
        else if !ctx.verifyInnerMessage inner then
          return refusedRelay
        else
          ctx.forward targetId inner
    else
      return refusedRelay

/-- The first address that answers a ping. -/
def connectBack : List SocketAddr → NodeTask Bool
  | [] => return false
  | addr :: rest => do
    let ping ← ctx.newMessage .pingRequest
    match ← sendRequestAny .own [addr] ping with
    | some _ => return true
    | none => connectBack rest

/-- What is sent back. A response that arrives as a request is ignored. -/
def respond (fromAddr : SocketAddr) (msg : Message) : NodeTask (Option Payload) :=
  match msg.payload with
  | .pingRequest => return some (.pingResponse (some fromAddr))
  | .findNodeRequest target => do
    let closest ← act (.closestNodes (NodeId.fromBytes target) ctx.config.k)
    return some (.findNodeResponse (closest.map NodeInfo.toSerde))
  | .getProvidersRequest key => do
    let providers ← act (.getProviders key)
    let closer ← act (.closestNodes (NodeId.fromBytes key) ctx.config.k)
    return some (.getProvidersResponse (providers.getD []) (closer.map NodeInfo.toSerde))
  | .addProviderRequest key addresses => do
    let r ← act (.addProvider key (NodeId.fromBytes msg.senderId) msg.senderKey addresses
      ctx.config.providerTtl)
    return some (.addProviderResponse r.isSome)
  | .getChunkRequest chunkHash => do
    match ← act (.getChunk chunkHash) with
    | .ok (some data) => return some (.getChunkResponse data)
    | _ => return some (.getChunkResponse [])
  | .putChunkRequest chunkHash data => do
    return some (← ctx.putChunk fromAddr msg.senderId chunkHash data)
  | .relayRequest targetId payload relayHops => do
    return some (← ctx.relay fromAddr targetId payload relayHops)
  | .connectRequest requesterAddrs _ _ => do
    return some (.connectResponse (← ctx.connectBack requesterAddrs))
  | _ => return none

def answer (fromAddr : SocketAddr) (msg : Message) : NodeTask Unit := do
  match ← ctx.respond fromAddr msg with
  | none => pure ()
  | some payload =>
    let response := msg.response ctx.nodeId.asBytes ctx.publicKey ctx.pow payload
    act (.sendResponse fromAddr (response.sign ctx.crates ctx.secret))

def handleInboundMessage (fromAddr : SocketAddr) (msg : Message) : NodeTask Unit :=
  match ctx.rejection msg with
  | some _ => pure ()
  | none =>
    if msg.clientMode then
      ctx.answer fromAddr msg
    else do
      match ← ctx.insertSender fromAddr msg with
      | .error _ => pure ()
      | .ok () => ctx.answer fromAddr msg

/-! ## Proactive replication -/

/-- The keys of which the new node is among the closest. -/
def keysToReplicate (newNode : NodeInfo) : List Hash → NodeTask (List Hash)
  | [] => return []
  | key :: rest => do
    let closest ← act (.closestNodes (NodeId.fromBytes key) ctx.config.k)
    let keys ← keysToReplicate newNode rest
    return if closest.any fun n => n.nodeId = newNode.nodeId then key :: keys else keys

def replicateChunks (newNode : NodeInfo) : List Hash → NodeTask Unit
  | [] => pure ()
  | key :: rest => do
    match ← act (.getChunk key) with
    | .ok (some data) => do
      let msg ← ctx.newMessage (.putChunkRequest key data)
      let _ ← act (.send ⟨.own, newNode.addresses, msg⟩)
      replicateChunks newNode rest
    | _ => replicateChunks newNode rest

/-- The answers are only counted. -/
def replicateChunksToNode (newNode : NodeInfo) : NodeTask Unit :=
  if newNode.addresses = [] ∨ newNode.nodeId = ctx.nodeId then
    pure ()
  else do
    match ← act (.getOwnProviders ctx.nodeId) with
    | none => pure ()
    | some ownKeys => do
      let keys ← ctx.keysToReplicate newNode ownKeys
      ctx.replicateChunks newNode keys

end HandlerContext

end TesserasDht
