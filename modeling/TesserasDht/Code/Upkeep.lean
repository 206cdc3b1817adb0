import TesserasDht.Code.Operations

/-!
# Provider maintenance

`do_provider_maintenance` of `src/node.rs`, as a task that takes turns with the others. A message that is
sent from a task of its own is one `send` here, and nobody looks at the answer.
-/

open Lib.Tasks

namespace TesserasDht

/-- The operations of a node, and the one that only the maintenance performs. -/
inductive UpkeepOp
  | node (e : Op)
  | cleanupExpiredProviders

@[reducible]
def UpkeepOp.Result : UpkeepOp → Type
  | .node e => e.Result
  | .cleanupExpiredProviders => Option Nat

abbrev UpkeepTask := Task UpkeepOp UpkeepOp.Result

abbrev upkeepAct (e : UpkeepOp) : UpkeepTask e.Result := perform e

/-- A task of the node among those that also maintain it. -/
def lift {α : Type} : NodeTask α → UpkeepTask α
  | .ret a => .ret a
  | .op e k => .op (.node e) fun r => lift (k r)

/-- `DELETE`, and how many rows it removes. -/
def cleanupExpiredProviders (now : Nat) (rows : List ProviderRow) : Nat × List ProviderRow :=
  (rows.countP fun r => r.expiresAt ≤ toI64 now, rows.filter fun r => ¬r.expiresAt ≤ toI64 now)

def UpkeepOp.apply (b : Build) (sha256 : Bytes → Hash) :
    (e : UpkeepOp) → Input → NodeState → e.Result × NodeState
  | .node e, i, s => e.apply b sha256 i s
  | .cleanupExpiredProviders, i, s =>
    if i.metadataFails then
      (none, s)
    else
      let (n, providers) := TesserasDht.cleanupExpiredProviders i.seconds s.providers
      (some n, { s with providers })

namespace HandlerContext

variable (ctx : HandlerContext)

/-- Refresh each own record, and announce it to the closest peers. -/
def reannounce (localAddr : SocketAddr) : List Hash → NodeTask Unit
  | [] => pure ()
  | key :: rest => do
    let _ ← act (.addProvider key ctx.nodeId ctx.publicKey [localAddr] ctx.config.providerTtl)
    let closest ← act (.closestNodes (NodeId.fromBytes key) ctx.config.k)
    let _ ← ctx.sendToPeers (.addProviderRequest key [localAddr]) (ctx.reachable (closest.take ctx.config.k))
    reannounce localAddr rest

/-- The peers that were seen since the last maintenance. -/
def newNodes (lastMaintenanceTime : Nat) (closest : List NodeInfo) : List NodeInfo :=
  closest.filter fun n => n.nodeId ≠ ctx.nodeId ∧ n.addresses ≠ [] ∧ lastMaintenanceTime < n.lastSeen

def replicateToNew (lastMaintenanceTime : Nat) : List Hash → NodeTask Unit
  | [] => pure ()
  | key :: rest => do
    let closest ← act (.closestNodes (NodeId.fromBytes key) ctx.config.k)
    let newNodes := ctx.newNodes lastMaintenanceTime closest
    if newNodes = [] then
      replicateToNew lastMaintenanceTime rest
    else do
      match ← act (.getChunk key) with
      | .ok (some data) => do
        let _ ← ctx.sendToPeers (.putChunkRequest key data) newNodes
        replicateToNew lastMaintenanceTime rest
      | _ => replicateToNew lastMaintenanceTime rest

/-- What follows the cleanup. The result is the new `last_maintenance_time`, if there is one. -/
def republish (lastMaintenanceTime : Nat) : NodeTask (Option Nat) := do
  match ← act (.getOwnProviders ctx.nodeId) with
  | none => return none
  | some [] => return none
  | some ownKeys => do
    let external ← act .externalAddr
    ctx.reannounce (external.getD ctx.localAddr) ownKeys
    if ctx.config.proactiveReplication then do
      ctx.replicateToNew lastMaintenanceTime ownKeys
      return some (← act .now)
    else
      return some (← act .now)

def doProviderMaintenance (lastMaintenanceTime : Nat) : UpkeepTask (Option Nat) := do
  let _ ← upkeepAct .cleanupExpiredProviders
  lift (ctx.republish lastMaintenanceTime)

end HandlerContext

end TesserasDht
