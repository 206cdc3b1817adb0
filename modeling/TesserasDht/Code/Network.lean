import TesserasDht.Code.Peers

/-!
# A network of nodes

Nodes that run the tasks of `src/node.rs`, and whoever else may send them messages. Every operation of
every task goes to the trace, with the routing table that it met.
-/

open Lib.Tasks

namespace TesserasDht

/-- The nodes `ν`, each with one address. -/
structure Network (ν : Type) where
  ctx : ν → HandlerContext
  addr : ν → SocketAddr

/-- A request that a node sent: the node, its number there, and whose message it carries. -/
structure Sent (ν : Type) where
  node : ν
  request : Nat
  origin : Origin
deriving DecidableEq

/-- What a task does. A message that did not come from a node of the network has no `via`. -/
inductive Job (ν : Type)
  | handle (fromAddr : SocketAddr) (msg : Message) (via : Option (Sent ν))
  | replicate (newNode : NodeInfo)
  | query (target peerId : NodeId) (addrs : List SocketAddr)
  | bootstrap (addrs : List SocketAddr)
  | request (addrs : List SocketAddr) (target : NodeId) (payload : Payload)
  | save
  | cleanup
  | restart

/-- A task: its number, its node and its job. -/
structure Label (ν : Type) where
  id : Nat
  node : ν
  job : Job ν

/-- The peer that an operation inserts. -/
def Op.inserted : Op → Option NodeInfo
  | .insert node => some node
  | _ => none

/-- An operation of a task, and the routing table of its node before it. -/
structure Event (ν : Type) where
  label : Label ν
  op : Op
  table : RoutingTable

/-- The response of `responder` to a request of `node`. -/
structure Reply (ν : Type) where
  node : ν
  request : Nat
  responder : ν
  msg : Message

structure NetState (ν : Type) where
  nodes : ν → NodeState
  trace : List (Event ν)
  replies : List (Reply ν)
  started : Nat

/-- What may begin. -/
inductive Start (ν : Type)
  /-- A message from outside. -/
  | inject (node : ν) (fromAddr : SocketAddr) (msg : Message)
  /-- A request of `src` arrives at `dst`. -/
  | deliver (src : ν) (request : Nat) (dst : ν)
  | replicate (node : ν) (spawned : Nat)
  | query (node : ν) (target peerId : NodeId) (addrs : List SocketAddr)
  | bootstrap (node : ν) (addrs : List SocketAddr)
  | request (node : ν) (addrs : List SocketAddr) (target : NodeId) (payload : Payload)
  | save (node : ν)
  | cleanup (node : ν)
  /-- The node stops and is spawned again. -/
  | restart (node : ν) (now : Nat)

namespace Network

variable {ν : Type} [DecidableEq ν] (net : Network ν)

/-- What `dst` reads of a message that `src` writes. -/
def transmit (src dst : ν) (msg : Message) : Option Message :=
  ((net.ctx src).crates.toBytes msg).bind (net.ctx dst).crates.fromBytes

/-- The peers that a lookup of the node may query: those in its table, and those that an answer
brought, which were inserted on arrival. -/
def knows (s : NetState ν) (node : ν) (peerId : NodeId) (addrs : List SocketAddr) : Prop :=
  (∃ i, ∃ n ∈ ((s.nodes node).routingTable.bucket i).nodes,
    n.nodeId = peerId ∧ n.addresses = addrs) ∨
  ∃ e ∈ s.trace, e.label.node = node ∧
    ∃ n ∈ e.op.inserted, n.nodeId = peerId ∧ n.addresses = addrs

instance (s : NetState ν) (node : ν) (peerId : NodeId) (addrs : List SocketAddr) :
    Decidable (knows s node peerId addrs) :=
  inferInstanceAs (Decidable (_ ∨ _))

/-- The task of a job. -/
def task (ctx : HandlerContext) : Job ν → NodeTask Unit
  | .handle fromAddr msg _ => ctx.handleInboundMessage fromAddr msg
  | .replicate newNode => ctx.replicateChunksToNode newNode
  | .query target peerId addrs => do
    let _ ← ctx.queryPeer target peerId addrs
    pure ()
  | .bootstrap addrs => ctx.doBootstrap addrs
  | .request addrs target payload => do
    let msg ← ctx.newMessage payload
    let _ ← ctx.sendWithNatTraversal addrs target msg
    pure ()
  | .save => HandlerContext.saveRoutingTable
  | .cleanup => HandlerContext.cleanupTick
  | .restart => pure ()

/-- A new process has the stores on disk, and everything else is as at the start. -/
def restarted (now : Nat) (ctx : HandlerContext) (s : NodeState) : NodeState :=
  { s with
    routingTable := loadPeers now s.savedPeers (RoutingTable.new now ctx.nodeId ctx.config.k)
    relayLimiter := .new s.relayLimiter.ratePerSecond s.relayLimiter.burst
    writeLimiter := .new s.writeLimiter.ratePerSecond s.writeLimiter.burst
    peerChunkCounts := fun _ => none
    externalAddr := none }

/-- The job that begins, if it may. -/
def job (s : NetState ν) : Start ν → Option (ν × Job ν)
  | .inject node fromAddr msg => some (node, .handle fromAddr msg none)
  | .deliver src request dst =>
    match (s.nodes src).requests[request]? with
    | none => none
    | some out =>
      if net.addr dst ∈ out.addrs then
        (net.transmit src dst out.msg).map fun msg =>
          (dst, .handle (net.addr src) msg (some ⟨src, request, out.origin⟩))
      else
        none
  | .replicate node spawned => (s.nodes node).spawned[spawned]?.map fun n => (node, .replicate n)
  | .query node target peerId addrs => some (node, .query target peerId addrs)
  | .bootstrap node addrs => some (node, .bootstrap addrs)
  | .request node addrs target payload => some (node, .request addrs target payload)
  | .save node => some (node, .save)
  | .cleanup node => some (node, .cleanup)
  | .restart node _ => some (node, .restart)

/-- The state in which the job begins. -/
def begun (s : NetState ν) : Start ν → NetState ν
  | .restart node now =>
    let restarted := restarted now (net.ctx node) (s.nodes node)
    { s with nodes := Function.update s.nodes node restarted }
  | _ => s

def start (x : Start ν) (s : NetState ν) : Option (NetState ν × Label ν × NodeTask Unit) :=
  (net.job s x).map fun (node, job) =>
    ({ net.begun s x with started := s.started + 1 }, ⟨s.started, node, job⟩,
      task (net.ctx node) job)

/-- The response that a handler sends goes to the request that it handles. -/
def reply (label : Label ν) (e : Op) : List (Reply ν) :=
  match label.job, e with
  | .handle _ _ (some via), .sendResponse _ msg => [⟨via.node, via.request, label.node, msg⟩]
  | _, _ => []

def apply (label : Label ν) (e : Op) (input : Input) (s : NetState ν) : e.Result × NetState ν :=
  let ctx := net.ctx label.node
  let (r, node) := e.apply ctx.build ctx.crates.sha256 input (s.nodes label.node)
  (r, { s with
    nodes := Function.update s.nodes label.node node
    trace := s.trace ++ [⟨label, e, (s.nodes label.node).routingTable⟩]
    replies := s.replies ++ reply label e })

/-- Any task may begin, and the next operation of any task may be performed. -/
def system : System (NetState ν) (Label ν) Input (Start ν) Op Op.Result where
  apply := net.apply
  start := net.start

/-- No task has begun, and nothing was sent. -/
def fresh (nodes : ν → NodeState) : Pool (NetState ν) (Label ν) Op Op.Result where
  state :=
    { nodes := fun v => { nodes v with requests := [], responses := [], spawned := [] }
      trace := [], replies := [], started := 0 }
  tasks := []

end Network

end TesserasDht
