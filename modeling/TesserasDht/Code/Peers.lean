import TesserasDht.Code.Inbound
import TesserasDht.Code.Lookup

/-!
# How a node finds peers

`do_bootstrap`, the query of `do_iterative_find_node`, the ways around a NAT, and the periodic tasks
of `src/node.rs`. The queries of a lookup are tasks of their own.
-/

open Lib.Tasks

namespace TesserasDht

namespace HandlerContext

variable (ctx : HandlerContext)

/-! ## Relays -/

/-- A relay is neither the target nor this node, and has an address. -/
def isRelayFor (target : NodeId) (candidate : NodeInfo) : Bool :=
  candidate.nodeId ≠ target ∧ candidate.nodeId ≠ ctx.nodeId ∧ candidate.addresses ≠ []

/-- The payload of a positive answer of a relay. -/
def askRelay (target : NodeId) (inner : Bytes) (candidate : NodeInfo) : NodeTask (Option Bytes) := do
  let msg ← ctx.newMessage (.relayRequest target.asBytes inner 0)
  match ← sendRequestAny .own candidate.addresses msg with
  | none => return none
  | some resp =>
    match resp.payload with
    | .relayResponse true payload => return some payload
    | _ => return none

/-- The relays of a lookup: an answer that cannot be decoded is passed over. -/
def queryRelays (target : NodeId) (inner : Bytes) : List NodeInfo → NodeTask (Option Message)
  | [] => return none
  | candidate :: rest =>
    if ctx.isRelayFor target candidate then do
      match ← ctx.askRelay target inner candidate with
      | none => queryRelays target inner rest
      | some payload =>
        match ctx.crates.fromBytes payload with
        | some resp => return some resp
        | none => queryRelays target inner rest
    else
      queryRelays target inner rest

/-- The relays of `send_via_relay`: an answer that cannot be decoded is an error. -/
def sendViaRelays (target : NodeId) (inner : Bytes) : List NodeInfo → NodeTask (Option Message)
  | [] => return none
  | candidate :: rest =>
    if ctx.isRelayFor target candidate then do
      match ← ctx.askRelay target inner candidate with
      | none => sendViaRelays target inner rest
      | some payload => return ctx.crates.fromBytes payload
    else
      sendViaRelays target inner rest

def sendViaRelay (target : NodeId) (msg : Message) : NodeTask (Option Message) := do
  let candidates ← act (.closestNodes ctx.nodeId ctx.config.k)
  match ctx.crates.toBytes msg with
  | none => return none
  | some inner => ctx.sendViaRelays target inner candidates

/-- The relays of `request_reverse_connection`: the target has to say that it connected. -/
def connectViaRelays (target : NodeId) (inner : Bytes) : List NodeInfo → NodeTask Bool
  | [] => return false
  | candidate :: rest =>
    if ctx.isRelayFor target candidate then do
      match ← ctx.askRelay target inner candidate with
      | none => connectViaRelays target inner rest
      | some payload =>
        match (ctx.crates.fromBytes payload).map Message.payload with
        | some (.connectResponse true) => return true
        | _ => connectViaRelays target inner rest
    else
      connectViaRelays target inner rest

def requestReverseConnection (target : NodeId) : NodeTask Bool := do
  let external ← act .externalAddr
  let myAddr := external.getD ctx.localAddr
  let msg ← ctx.newMessage (.connectRequest [myAddr] ctx.nodeId.asBytes ctx.publicKey)
  match ctx.crates.toBytes msg with
  | none => return false
  | some inner => do
    let candidates ← act (.closestNodes ctx.nodeId ctx.config.k)
    ctx.connectViaRelays target inner candidates

/-- Direct, then connection reversal and direct again, then relay. -/
def sendWithNatTraversal (addrs : List SocketAddr) (target : NodeId) (msg : Message) :
    NodeTask (Option Message) := do
  match ← sendRequestAny .own addrs msg with
  | some resp => return some resp
  | none =>
    if ← ctx.requestReverseConnection target then
      match ← sendRequestAny .own addrs msg with
      | some resp => return some resp
      | none => ctx.sendViaRelay target msg
    else
      ctx.sendViaRelay target msg

/-! ## Lookups -/

/-- A panic of `insert` ends the task. -/
def insertAll : List NodeInfo → NodeTask (Outcome Unit)
  | [] => return .ok ()
  | node :: rest => do
    match ← act (.insert node) with
    | .error e => return .error e
    | .ok _ => insertAll rest

/-- The response to a query, direct or through a relay. -/
def queryResponse (target peerId : NodeId) (addrs : List SocketAddr) : NodeTask (Option Message) := do
  let msg ← ctx.newMessage (.findNodeRequest target.asBytes)
  match ← sendRequestAny .own addrs msg with
  | some resp => return some resp
  | none => do
    let candidates ← act (.closestNodes ctx.nodeId ctx.config.k)
    match ctx.crates.toBytes msg with
    | none => return none
    | some inner => ctx.queryRelays peerId inner candidates

/-- `send_find_node` of a lookup. -/
def queryPeer (target peerId : NodeId) (addrs : List SocketAddr) : NodeTask Lookup.Answer := do
  match ← ctx.queryResponse target peerId addrs with
  | none => do
    act (.recordFailure peerId ctx.config.maxFailures)
    return none
  | some resp => do
    let now ← act .now
    let respId := NodeId.fromBytes resp.senderId
    match ← act (.insert (NodeInfo.new now respId resp.senderKey addrs)) with
    | .error _ => return none
    | .ok _ =>
      match resp.payload with
      | .findNodeResponse nodes =>
        let returned := nodes.map (NodeInfoSerde.toInfo now)
        match ← insertAll returned with
        | .error _ => return none
        | .ok () => return addrs.head?.map fun addr => (respId, addr, returned)
      | _ => return none

/-! ## Bootstrap -/

/-- Send a message of this node to each address. -/
def sendEach (payload : Payload) : List SocketAddr → NodeTask (List (SocketAddr × Nat))
  | [] => return []
  | addr :: rest => do
    let msg ← ctx.newMessage payload
    let request ← act (.send ⟨.own, [addr], msg⟩)
    let sent ← sendEach payload rest
    return (addr, request) :: sent

/-- `join_all`. -/
def awaitEach : List (SocketAddr × Nat) → NodeTask (List (SocketAddr × Option Message))
  | [] => return []
  | (addr, request) :: rest => do
    let resp ← act (.await request)
    let resps ← awaitEach rest
    return (addr, resp) :: resps

/-- The results of the pings. -/
def greetEach : List (SocketAddr × Option Message) → NodeTask (Outcome Unit)
  | [] => return .ok ()
  | (addr, none) :: rest => do
    act (.recordFailureByAddr addr ctx.config.maxFailures)
    greetEach rest
  | (addr, some resp) :: rest => do
    let greet : NodeTask (Outcome Unit) := do
      let now ← act .now
      let node := NodeInfo.new now (NodeId.fromBytes resp.senderId) resp.senderKey [addr]
      match ← act (.insert node) with
      | .error e => return .error e
      | .ok _ => greetEach rest
    match resp.payload with
    | .pingResponse (some ext) => do
      act (.setExternalAddr ext)
      greet
    | _ => greet

/-- The nodes that the bootstrap peers of a client name. -/
def insertFound : List (SocketAddr × Option Message) → NodeTask (Outcome Unit)
  | [] => return .ok ()
  | (_, resp) :: rest =>
    match resp.map Message.payload with
    | some (.findNodeResponse nodes) => do
      let now ← act .now
      match ← insertAll (nodes.map (NodeInfoSerde.toInfo now)) with
      | .error e => return .error e
      | .ok () => insertFound rest
    | _ => insertFound rest

/-- Without client mode a lookup of the own id follows. -/
def doBootstrap (addrs : List SocketAddr) : NodeTask Unit := do
  let sent ← ctx.sendEach .pingRequest addrs
  let results ← awaitEach sent
  match ← ctx.greetEach results with
  | .error _ => pure ()
  | .ok () =>
    if ctx.config.clientMode then do
      let live := (results.filter fun r => r.2.isSome).map Prod.fst
      let asked ← ctx.sendEach (.findNodeRequest ctx.nodeId.asBytes) live
      let found ← awaitEach asked
      let _ ← insertFound found
      pure ()
    else
      pure ()

/-! ## Periodic tasks -/

def saveRoutingTable : NodeTask Unit := do
  let peers ← act .allNodesSerde
  let _ ← act (.savePeersBatch peers)
  pure ()

/-- The cleanup every minute. -/
def cleanupTick : NodeTask Unit := do
  act (.cleanupLimiters (300 * 10 ^ 9))
  let peers ← act .allNodesSerde
  act (.retainCounts (peers.map NodeInfoSerde.nodeId))

end HandlerContext

/-- The peers of the last session. -/
def loadPeers (now : Nat) (peers : List NodeInfoSerde) (t : RoutingTable) : RoutingTable :=
  peers.foldl (fun t peer => match t.insert now (peer.toInfo now) with
    | .ok (t, _) => t
    | .error _ => t) t

end TesserasDht
