import TesserasDht.Peers

/-!
# Ids and keys in the routing table

`handle_inbound_message` checks that the id of a sender is the hash of its key. The answers to pings
and lookups are stored without that check.
-/

open Lib.Tasks Lib.Runs

namespace TesserasDht.Identities

open Admission Conduct Peers

/-- The id is the hash of the key. -/
def Derived (ctx : HandlerContext) (n : NodeInfo) : Prop :=
  n.nodeId = deriveNodeId ctx.crates.sha256 n.publicKey

theorem derived_stable (ctx : HandlerContext) : Stable (Derived ctx) := by
  intro n m n' hn _ hid _ hkey _
  rw [Derived, hid, hkey]
  exact hn

/-! ## What a task takes from an answer -/

/-- An id and a key. -/
abbrev Identity := Bytes32 × Bytes32

def sender (msg : Message) : Identity := (msg.senderId, msg.senderKey)

/-- The nodes that a message names. -/
def named (msg : Message) : List Identity :=
  match msg.payload with
  | .findNodeResponse nodes => nodes.map fun n => (n.nodeId, n.publicKey)
  | _ => []

/-- The message that a relay brings back. -/
def relayed (ctx : HandlerContext) (msg : Message) : Option Message :=
  match msg.payload with
  | .relayResponse true bytes => ctx.crates.fromBytes bytes
  | _ => none

/-- The identities that a task inserts when `msg` answers its request `asked`. -/
def taken {ν : Type} (ctx : HandlerContext) (job : Job ν) (asked : Payload) (msg : Message) :
    List Identity :=
  match job, asked with
  | .bootstrap _, .pingRequest => [sender msg]
  | .bootstrap _, .findNodeRequest _ => named msg
  | .query _ _ _, .findNodeRequest _ => sender msg :: named msg
  | .query _ _ _, .relayRequest _ _ _ => match relayed ctx msg with
    | some inner => sender inner :: named inner
    | none => []
  | _, _ => []

def DerivedPair (ctx : HandlerContext) (p : Identity) : Prop := p.1 = ctx.crates.sha256 p.2.bytes

section

variable (ctx : HandlerContext)

/-- The peers of a task, when its answers bring derived identities only. -/
def trust {ν : Type} (job : Job ν) : Trust where
  Good := Derived ctx
  Sends _ := True
  Reply out msg := ∀ p ∈ taken ctx job out.msg.payload msg, DerivedPair ctx p
  Responds _ := True

theorem derived_new {ctx : HandlerContext} {now : Nat} {id key : Bytes32} {addrs : List SocketAddr}
    (h : DerivedPair ctx (id, key)) :
    Derived ctx (NodeInfo.new now (NodeId.fromBytes id) key addrs) :=
  congrArg NodeId.fromBytes h

theorem senderGood_of {T : Trust} (hT : T.Good = Derived ctx) {msg : Message}
    (h : DerivedPair ctx (sender msg)) (addrs : List SocketAddr) : SenderGood T addrs msg := by
  intro now
  rw [hT]
  exact derived_new h

theorem nodesGood_of {T : Trust} (hT : T.Good = Derived ctx) {msg : Message}
    (h : ∀ p ∈ named msg, DerivedPair ctx p) : NodesGood T msg := by
  intro nodes hnodes n hn now
  rw [hT]
  apply derived_new
  apply h
  rw [named, hnodes]
  exact List.mem_map_of_mem hn

variable {ν : Type}

/-- A relay's answer is worth what it brings back. -/
theorem query_believes (target peerId : NodeId) (addrs : List SocketAddr) (msg : Message)
    (h : Answers (trust ctx (Job.query target peerId addrs : Job ν)) ctx target peerId addrs msg) :
    SenderGood (trust ctx (Job.query target peerId addrs : Job ν)) addrs msg ∧
      NodesGood (trust ctx (Job.query target peerId addrs : Job ν)) msg := by
  have hall : ∀ p ∈ sender msg :: named msg, DerivedPair ctx p := by
    rcases h with ⟨own, hown, hreply⟩ | ⟨inner, out, resp, bytes, -, hown, hreply, hresp, hbytes⟩
    · simp only [trust, hown.payload, taken] at hreply
      exact hreply
    · have hinner : relayed ctx resp = some msg := by
        rw [relayed, hresp]
        exact hbytes
      simp only [trust, hown.payload, taken, hinner] at hreply
      exact hreply
  exact ⟨senderGood_of ctx rfl (hall _ List.mem_cons_self) addrs,
    nodesGood_of ctx rfl fun p hp => hall p (List.mem_cons_of_mem _ hp)⟩

theorem task_does (job : Job ν) :
    Keeps (trust ctx job).contract (fun _ _ => True) (fun _ => none) (Network.task ctx job) := by
  have hown : ∀ payload addrs msg, Own ctx payload msg → (trust ctx job).Sends ⟨.own, addrs, msg⟩ :=
    fun _ _ _ _ => trivial
  cases job with
  | handle fromAddr msg via =>
    refine handleInboundMessage_does ctx hown fromAddr msg (fun _ _ => trivial) (fun _ _ _ _ => trivial)
      (fun haccepted _ => senderGood_of ctx rfl ?_ _) _
    exact ((rejection_eq_none_iff ctx msg).mp haccepted).id
  | replicate newNode => exact replicateChunksToNode_does ctx hown newNode _
  | query target peerId addrs =>
    exact (queryPeer_does ctx hown target peerId addrs (query_believes ctx target peerId addrs) _).bind
      fun _ _ _ => trivial
  | bootstrap addrs =>
    refine doBootstrap_does ctx hown ?_ ?_ addrs _
    · rintro addr msg ⟨own, hown, hreply⟩
      simp only [trust, hown.payload, taken] at hreply
      exact senderGood_of ctx rfl (hreply _ List.mem_cons_self) _
    · rintro addr msg ⟨own, hown, hreply⟩
      simp only [trust, hown.payload, taken] at hreply
      exact nodesGood_of ctx rfl hreply
  | request addrs target payload =>
    apply (ownMessage_does ctx _ _ _).bind
    rintro g msg ⟨rfl, hmsg⟩
    exact (sendWithNatTraversal_does ctx hown hmsg addrs target _).bind fun _ _ _ => trivial
  | save => exact saveRoutingTable_does _
  | cleanup => exact cleanupTick_does _
  | restart => exact trivial

end

/-! ## Runs -/

section

variable {ν : Type} [DecidableEq ν] (net : Network ν)

/-- The identities that the task inserts because of the answer that this operation brings. -/
def learned (label : Label ν) (e : Op) (input : Input) (s : NetState ν) : List Identity :=
  match e, input.answer with
  | .await request, some msg => match (s.nodes label.node).requests[request]? with
    | some out => taken (net.ctx label.node) label.job out.msg.payload msg
    | none => []
  | _, _ => []

/-- Every identity that comes with an answer and is inserted is derived. -/
def Vouched (label : Label ν) (e : Op) (input : Input) (s : NetState ν) : Prop :=
  ∀ p ∈ learned net label e input s, DerivedPair (net.ctx label.node) p

instance (label : Label ν) (e : Op) (input : Input) (s : NetState ν) :
    Decidable (Vouched net label e input s) :=
  inferInstanceAs (Decidable (∀ p ∈ learned net label e input s, p.1 = _))

theorem start_derived (x : Start ν) (s s' : NetState ν) (label : Label ν) (t : NodeTask Unit)
    (gs : List (Label ν × Requests)) (hJ : Sound (fun v => Derived (net.ctx v)) s gs)
    (hx : net.start x s = some (s', label, t)) :
    ∃ g, Keeps (trust (net.ctx label.node) label.job).contract (fun _ _ => True) g t ∧
      Sound (fun v => Derived (net.ctx v)) s' (gs ++ [(label, g)]) := by
  obtain ⟨-, -, -, rfl⟩ := start_some net hx
  exact ⟨_, task_does (net.ctx label.node) label.job,
    start_sound net (fun v => derived_stable (net.ctx v)) hJ hx⟩

theorem apply_derived (label : Label ν) (g : Requests) (e : Op) (input : Input) (s : NetState ν)
    (gs : List (Label ν × Requests)) (i : Nat) (hok : Vouched net label e input s)
    (howes : (trust (net.ctx label.node) label.job).contract.owes g e)
    (hi : gs[i]? = some (label, g)) (hJ : Sound (fun v => Derived (net.ctx v)) s gs) :
    (trust (net.ctx label.node) label.job).contract.gets g e (net.apply label e input s).1 ∧
      Sound (fun v => Derived (net.ctx v)) (net.apply label e input s).2 (gs.set i (label,
        (trust (net.ctx label.node) label.job).contract.next g e (net.apply label e input s).1)) := by
  apply apply_sound net (fun v => derived_stable (net.ctx v))
    (T := fun label => trust (net.ctx label.node) label.job) (fun _ => rfl) input howes hi hJ
  rintro request rfl out hout msg hmsg p hp
  have hsent := hJ.linked _ (List.mem_of_getElem? hi) request out hout
  apply hok
  simp only [learned, Option.mem_def.mp hmsg, hsent]
  exact hp

/-- Requests may carry anything and come from anyone. As long as the identities in the answers are
derived, so are those of all peers in the tables, those that were saved and loaded included. -/
theorem table_derived (nodes : ν → NodeState)
    (hnodes : ∀ v, NodeGood (Derived (net.ctx v)) (nodes v)) (as : List (Action (Start ν) Input))
    (hanswers : Meets net.system.step (Allows (fun _ _ => True) (Vouched net)) (Network.fresh nodes) as)
    (v : ν) (n : NodeInfo)
    (hn : Contains ((run net.system.step (Network.fresh nodes) as).state.nodes v).routingTable n) :
    Derived (net.ctx v) n := by
  have hstart : ∃ gs, Kept (fun label => (trust (net.ctx label.node) label.job).contract)
      (Network.fresh nodes) gs ∧ Sound (fun v => Derived (net.ctx v)) (Network.fresh nodes).state gs := by
    refine ⟨[], .nil, fun v => ?_, by rintro _ ⟨⟩⟩
    exact ⟨(hnodes v).table, (hnodes v).saved⟩
  obtain ⟨gs, -, hsound⟩ := run_kept (fun x s s' label t gs _ => start_derived net x s s' label t gs)
    (apply_derived net) hstart hanswers
  exact (hsound.nodes v).table.contains hn

end

/-! ## A bootstrap peer with an id of its choice -/

/-- A node with nothing around it. -/
def alone (ctx : HandlerContext) : Network Unit := ⟨fun _ => ctx, fun _ => ctx.localAddr⟩

def bootstrapAddr : SocketAddr := .v4 127 0 0 1 4434

/-- The node bootstraps, and the answer to its ping is `msg`. -/
def bootstrapRun (msg : Message) : List (Action (Start Unit) Input) :=
  .start (.bootstrap () [bootstrapAddr]) ::
    List.replicate 5 (.run 0 { quietInput with answer := some msg })

def nodeContext : HandlerContext := contextWith (.knowing [⟨Bytes32.fill 2, key2, []⟩] [])

/-- The table of the node afterwards. -/
def bootstrapped (msg : Message) : RoutingTable :=
  ((run (alone nodeContext).system.step (Network.fresh fun _ => freshState)
    (bootstrapRun msg)).state.nodes ()).routingTable

/-- A ping answer from the holder of the key. -/
def pong : Message := messageOf key1 7 (.pingResponse none) []

def pongPeer : NodeInfo := NodeInfo.new 0 (NodeId.fromBytes pong.senderId) key1 [bootstrapAddr]

theorem table_derived_pong :
    Contains (bootstrapped pong) pongPeer ∧ Derived nodeContext pongPeer := by
  have hmem : pongPeer ∈ (bootstrapped pong).closestNodes pongPeer.nodeId 1 := by decide +kernel
  have hfresh : NodeGood (Derived nodeContext) freshState := ⟨new_tableGood _ _ _, by rintro _ ⟨⟩⟩
  refine ⟨contains_of_closestNodes hmem, ?_⟩
  exact table_derived (alone nodeContext) (fun _ => freshState) (fun _ => hfresh) (bootstrapRun pong)
    (by decide +kernel) () pongPeer (contains_of_closestNodes hmem)

/-- A ping answer from the id `[9; 32]`. -/
def strayPong : Message := { pong with senderId := Bytes32.fill 9 }

/-- The node stores an id that is not the hash of the key it came with. -/
theorem bootstrap_stores_stray :
    ∃ n, Contains (bootstrapped strayPong) n ∧ ¬Derived nodeContext n := by
  let stray := NodeInfo.new 0 (NodeId.fromBytes (Bytes32.fill 9)) key1 [bootstrapAddr]
  have hmem : stray ∈ (bootstrapped strayPong).closestNodes stray.nodeId 1 := by decide +kernel
  refine ⟨stray, contains_of_closestNodes hmem, ?_⟩
  unfold Derived
  decide +kernel

end TesserasDht.Identities
