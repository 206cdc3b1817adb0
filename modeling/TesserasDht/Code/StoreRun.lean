import TesserasDht.Code.Operations

/-!
# A store and the requests that it spawns

`do_store_tessera` of `src/node.rs`, once its blocks are encoded. Each request is a task of its own. It looks
at `failed_peers`, waits for a permit of the semaphore and sends, while the store goes on.
-/

open Lib.Tasks

namespace TesserasDht

/-- How a request ends. An error is the text it prints. -/
inductive RpcEnd
  | response (payload : Payload)
  | error (text : String)
  | panicked
  | timedOut
deriving DecidableEq, Repr

/-- What `tokio::spawn` is given. Of the requests about the manifest no handle is kept. -/
structure Rpc where
  peerId : NodeId
  addrs : List SocketAddr
  msg : Message
  hasHandle : Bool
deriving DecidableEq, Repr

/-! ## The store -/

/-- The variables of the store. `results` has no value before `join_all`. -/
structure StoreVars where
  node : NodeState
  failedPeers : List NodeId
  rpcs : List Rpc
  results : Option (List (NodeId × RpcEnd))

inductive StoreOp
  | node (e : Op)
  | isFailed (peerId : NodeId)
  | spawn (rpc : Rpc)
  /-- `join_all` over the handles. -/
  | joinAll
  | markFailed (peerId : NodeId)

@[reducible]
def StoreOp.Result : StoreOp → Type
  | .node e => e.Result
  | .isFailed _ => Bool
  | .joinAll => List (NodeId × RpcEnd)
  | _ => Unit

abbrev StoreTask := Task StoreOp StoreOp.Result

/-- A task of the node as a part of the store. -/
def onNode {α : Type} : NodeTask α → StoreTask α
  | .ret a => .ret a
  | .op e k => .op (.node e) fun r => onNode (k r)

abbrev storeAct (e : StoreOp) : StoreTask e.Result := perform e

namespace HandlerContext

variable (ctx : HandlerContext)

/-- The loop over the closest peers of a chunk. -/
def offer (payload : Payload) : List NodeInfo → Nat → StoreTask Unit
  | [], _ => return ()
  | node :: rest, sent =>
    if ctx.config.alpha ≤ sent then
      return ()
    else if node.addresses = [] ∨ node.nodeId = ctx.nodeId then
      offer payload rest sent
    else do
      if ← storeAct (.isFailed node.nodeId) then
        offer payload rest sent
      else do
        let msg ← onNode (ctx.newMessage payload)
        storeAct (.spawn ⟨node.nodeId, node.addresses, msg, true⟩)
        offer payload rest (sent + 1)

def offerChunks (announceAddr : SocketAddr) : List (Hash × Bytes) → StoreTask Unit
  | [] => return ()
  | (hash, data) :: rest => do
    let closest ← storeAct (.node (.closestNodes (NodeId.fromBytes hash) ctx.config.k))
    ctx.offer (.putChunkRequest hash data) closest 0
    let _ ← storeAct (.node (.addProvider hash ctx.nodeId ctx.publicKey [announceAddr] ctx.config.providerTtl))
    offerChunks announceAddr rest

def announceChunks (announceAddr : SocketAddr) : List (Hash × Bytes) → StoreTask Unit
  | [] => return ()
  | (hash, _) :: rest => do
    let closest ← storeAct (.node (.closestNodes (NodeId.fromBytes hash) ctx.config.k))
    ctx.offer (.addProviderRequest hash [announceAddr]) closest 0
    announceChunks announceAddr rest

/-- The distributor loop over the encoded blocks. -/
def offerBlocks (announceAddr : SocketAddr) : List (List (Hash × Bytes)) → StoreTask (Outcome Unit)
  | [] => return .ok ()
  | chunks :: rest => do
    match ← onNode (putEach chunks) with
    | .error e => return .error e
    | .ok () => do
      ctx.offerChunks announceAddr chunks
      ctx.announceChunks announceAddr chunks
      offerBlocks announceAddr rest

/-- The accounting of the results. -/
def settleResults : List (NodeId × RpcEnd) → StoreTask Unit
  | [] => return ()
  | (peerId, .response payload) :: rest =>
    if payload = .putChunkResponse true then
      settleResults rest
    else do
      storeAct (.markFailed peerId)
      settleResults rest
  | (peerId, .error text) :: rest =>
    if "peer marked as failed".toList <:+: text.toList then
      settleResults rest
    else do
      storeAct (.markFailed peerId)
      storeAct (.node (.recordFailure peerId ctx.config.maxFailures))
      settleResults rest
  | (peerId, _) :: rest => do
    storeAct (.markFailed peerId)
    storeAct (.node (.recordFailure peerId ctx.config.maxFailures))
    settleResults rest

/-- A loop over the closest peers of the manifest. -/
def spread (payload : Payload) : List NodeInfo → StoreTask Unit
  | [] => return ()
  | node :: rest =>
    if node.addresses = [] ∨ node.nodeId = ctx.nodeId then
      spread payload rest
    else do
      let msg ← onNode (ctx.newMessage payload)
      storeAct (.spawn ⟨node.nodeId, node.addresses, msg, false⟩)
      spread payload rest

/-- `blocks` is what the encoder hands over, and `encoder` how it ends. -/
def storeTessera (blocks : List (List (Hash × Bytes))) (encoder : Outcome Unit) (manifest : Hash × Bytes) :
    StoreTask (Outcome Unit) := do
  let external ← storeAct (.node .externalAddr)
  let announceAddr := external.getD ctx.localAddr
  match ← ctx.offerBlocks announceAddr blocks with
  | .error e => return .error e
  | .ok () =>
    match encoder with
    | .error e => return .error e
    | .ok () => do
      let results ← storeAct .joinAll
      ctx.settleResults results
      match ← storeAct (.node (.putChunk manifest.1 manifest.2)) with
      | .error e => return .error e
      | .ok () => do
        let closest ← storeAct (.node (.closestNodes (NodeId.fromBytes manifest.1) ctx.config.k))
        ctx.spread (.putChunkRequest manifest.1 manifest.2) closest
        ctx.spread (.addProviderRequest manifest.1 [announceAddr]) closest
        return .ok ()

end HandlerContext

/-- What an operation of the store meets. Other tasks change the node before it. -/
structure StoreInput where
  input : Input
  meanwhile : NodeState → NodeState

/-- What an operation does and returns, where the requests end as `ends` says. -/
def StoreOp.apply (ctx : HandlerContext) (ends : Nat → RpcEnd) :
    (e : StoreOp) → StoreInput → StoreVars → e.Result × StoreVars
  | .node e, i, s =>
    let (r, state) := e.apply ctx.build ctx.crates.sha256 i.input (i.meanwhile s.node)
    (r, { s with node := state })
  | .isFailed peerId, _, s => (decide (peerId ∈ s.failedPeers), s)
  | .spawn rpc, _, s => ((), { s with rpcs := s.rpcs ++ [rpc] })
  | .joinAll, _, s =>
    let results := (s.rpcs.zipIdx.filter fun r => r.1.hasHandle).map fun r => (r.1.peerId, ends r.2)
    (results, { s with results := some results })
  | .markFailed peerId, _, s => ((), { s with failedPeers := s.failedPeers.insert peerId })

/-! ## The store and its requests side by side -/

inductive RpcStatus
  | spawned
  | waiting
  | sent
  | ended (e : RpcEnd)
deriving DecidableEq, Repr

inductive RpcEvent
  | sent (peerId : NodeId)
  | ended (peerId : NodeId) (e : RpcEnd)
deriving DecidableEq, Repr

/-- `count` is the number of operations that the store has performed. -/
structure StoreRun where
  task : StoreTask (Outcome Unit)
  count : Nat
  vars : StoreVars
  status : Nat → RpcStatus
  log : List RpcEvent

namespace StoreRun

def start (task : StoreTask (Outcome Unit)) (node : NodeState) : StoreRun :=
  { task, count := 0, vars := ⟨node, [], [], none⟩, status := fun _ => .spawned, log := [] }

def isEnded (s : StoreRun) (i : Nat) : Bool :=
  match s.status i with
  | .ended _ => true
  | _ => false

def endOf (s : StoreRun) (i : Nat) : RpcEnd :=
  match s.status i with
  | .ended e => e
  | _ => .timedOut

/-- The store is in `join_all`. -/
def isJoining (s : StoreRun) : Bool :=
  match s.task with
  | .op .joinAll _ => true
  | _ => false

def allEnded (s : StoreRun) : Bool := s.vars.rpcs.zipIdx.all fun r => !r.1.hasHandle || s.isEnded r.2

/-- How many requests hold a permit. -/
def inFlight (s : StoreRun) : Nat := s.vars.rpcs.zipIdx.countP fun r => r.1.hasHandle && s.status r.2 = .sent

def setStatus (s : StoreRun) (i : Nat) (status : RpcStatus) : StoreRun :=
  { s with status := Function.update s.status i status }

def send (s : StoreRun) (i : Nat) (r : Rpc) : StoreRun :=
  { s.setStatus i .sent with log := s.log ++ [.sent r.peerId] }

def finish (s : StoreRun) (i : Nat) (r : Rpc) (e : RpcEnd) : StoreRun :=
  { s.setStatus i (.ended e) with log := s.log ++ [.ended r.peerId e] }

end StoreRun

inductive StoreAction
  /-- The store performs its next operation. -/
  | store
  /-- The task of the request goes on: it looks at `failed_peers`, or takes a permit and sends. -/
  | advance (i : Nat)
  /-- The request ends. -/
  | answer (i : Nat)
  /-- The five seconds of `join_all` are over. -/
  | timeout (i : Nat)
deriving DecidableEq, Repr

namespace StoreRun

variable (ctx : HandlerContext) (inputs : Nat → StoreInput) (rpc : Nat → RpcEnd)

/-- The action of the task of a request. -/
def advance (s : StoreRun) (i : Nat) (r : Rpc) : StoreRun :=
  match s.status i with
  | .spawned =>
    if r.hasHandle then
      if r.peerId ∈ s.vars.failedPeers then
        s.setStatus i (.ended (.error "network: peer marked as failed"))
      else
        s.setStatus i .waiting
    else
      s.send i r
  | .waiting => if s.inFlight < ctx.config.alpha then s.send i r else s
  | _ => s

/-- The `i`-th request ends with `rpc i`, unless `failed_peers` keeps it from being sent. An action that is
not possible changes nothing. -/
def step (s : StoreRun) : StoreAction → StoreRun
  | .store =>
    match s.task with
    | .ret _ => s
    | .op e k =>
      if s.isJoining && !s.allEnded then
        s
      else
        let (r, vars) := e.apply ctx s.endOf (inputs s.count) s.vars
        { s with task := k r, count := s.count + 1, vars }
  | .advance i => match s.vars.rpcs[i]? with
    | some r => s.advance ctx i r
    | none => s
  | .answer i => match s.vars.rpcs[i]? with
    | some r => if s.status i = .sent ∧ rpc i ≠ .timedOut then s.finish i r (rpc i) else s
    | none => s
  | .timeout i => match s.vars.rpcs[i]? with
    | some r =>
      if s.isJoining ∧ r.hasHandle ∧ s.isEnded i = false ∧ rpc i = .timedOut then s.finish i r .timedOut else s
    | none => s

end StoreRun

end TesserasDht
