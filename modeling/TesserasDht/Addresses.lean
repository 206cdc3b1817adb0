import TesserasDht.Peers

/-!
# Addresses in the routing table

In a network of nodes that all run this code, an answer comes from the node at the address that was
asked. A request comes from the node at its source address, unless a relay forwarded it.
-/

open Lib.Tasks Lib.Runs

namespace TesserasDht.Addresses

open Admission Conduct Peers

section

variable {ν : Type} (net : Network ν)

/-- Each address of the peer is the address of a node with its id. -/
def Truthful (n : NodeInfo) : Prop :=
  ∀ a ∈ n.addresses, ∃ w, (net.ctx w).nodeId = n.nodeId ∧ net.addr w = a

theorem truthful_stable : Stable (Truthful net) := by
  intro n m n' hn hm hid hsame _ haddrs a ha
  rw [hid]
  rcases haddrs a ha with ha | ha
  · exact hn a ha
  · rw [hsame]
    exact hm a ha

/-- What is read is what was written. -/
def WireFaithful : Prop :=
  ∀ u v m bytes m', (net.ctx u).crates.toBytes m = some bytes →
    (net.ctx v).crates.fromBytes bytes = some m' → m' = m.onWire

theorem transmit_some {net : Network ν} (hwire : WireFaithful net) {u v : ν} {m m' : Message}
    (h : net.transmit u v m = some m') : m' = m.onWire := by
  obtain ⟨bytes, hbytes, hm⟩ := Option.bind_eq_some_iff.mp h
  exact hwire u v m bytes m' hbytes hm

/-! ## What honest nodes say -/

/-- The nodes that a message names are truthful. -/
def NodesTruthful (msg : Message) : Prop :=
  ∀ nodes, msg.payload = .findNodeResponse nodes → ∀ n ∈ nodes, ∀ now, Truthful net (n.toInfo now)

/-- A positive answer to a relay request brings back a message of the target. -/
def RelayTruthful (asked : Payload) (msg : Message) : Prop :=
  ∀ target inner hops, asked = .relayRequest target inner hops →
    ∀ bytes, msg.payload = .relayResponse true bytes →
      ∀ v m, (net.ctx v).crates.fromBytes bytes = some m →
        m.senderId = target ∧ NodesTruthful net m

/-- What the node `w` says when it was asked for `asked`. -/
structure Says (w : ν) (asked : Payload) (msg : Message) : Prop where
  sender : msg.senderId = (net.ctx w).nodeId.asBytes
  nodes : NodesTruthful net msg
  relay : RelayTruthful net asked msg

/-- The payload to which a task responds. -/
def Job.asked : Job ν → Option Payload
  | .handle _ msg _ => some msg.payload
  | _ => none

def trust (label : Label ν) : Trust where
  Good := Truthful net
  Sends out := out.origin = .own → out.msg.senderId = (net.ctx label.node).nodeId.asBytes
  Reply out msg := ∃ w, net.addr w ∈ out.addrs ∧ Says net w out.msg.payload msg
  Responds resp := ∀ asked ∈ Job.asked label.job, Says net label.node asked resp

section

variable {net} (haddr : ∀ v, (net.addr v).onWire = net.addr v)

include haddr

theorem truthful_onWire {n : NodeInfoSerde} {now : Nat} (h : Truthful net (n.toInfo now)) :
    Truthful net (n.onWire.toInfo now) := by
  intro a ha
  obtain ⟨a', ha', rfl⟩ := List.mem_map.mp ha
  obtain ⟨w, hid, rfl⟩ := h a' ha'
  exact ⟨w, hid, (haddr w).symm⟩

theorem nodesTruthful_onWire {msg : Message} (h : NodesTruthful net msg) :
    NodesTruthful net msg.onWire := by
  intro nodes hnodes n hn now
  cases hp : msg.payload with
  | findNodeResponse l =>
    simp only [Message.onWire, hp, Payload.onWire, Payload.findNodeResponse.injEq] at hnodes
    subst hnodes
    obtain ⟨n', hn', rfl⟩ := List.mem_map.mp hn
    exact truthful_onWire haddr (h l hp n' hn' now)
  | _ => simp [Message.onWire, hp, Payload.onWire] at hnodes

omit haddr in
theorem relayRequest_onWire {p : Payload} {target : Bytes32} {inner : Bytes} {hops : UInt8} :
    p.onWire = .relayRequest target inner hops ↔ p = .relayRequest target inner hops := by
  cases p <;> simp [Payload.onWire]

omit haddr in
theorem relayResponse_onWire {p : Payload} {ok : Bool} {bytes : Bytes} :
    p.onWire = .relayResponse ok bytes ↔ p = .relayResponse ok bytes := by
  cases p <;> simp [Payload.onWire]

theorem says_onWire {w : ν} {asked : Payload} {msg : Message} (h : Says net w asked msg) :
    Says net w asked msg.onWire := by
  refine ⟨h.sender, nodesTruthful_onWire haddr h.nodes, ?_⟩
  intro target inner hops hasked bytes hbytes
  exact h.relay target inner hops hasked bytes (relayResponse_onWire.mp hbytes)

end

/-! ## What the tasks do -/

/-- Who is behind the addresses that a task of the node is given. -/
def Fits (node : ν) : Job ν → Prop
  | .handle fromAddr msg _ => (net.ctx node).rejection msg = none → msg.clientMode = false →
    ∃ w, msg.senderId = (net.ctx w).nodeId.asBytes ∧ fromAddr = net.addr w
  | .query _ peerId addrs => ∀ a ∈ addrs, ∃ w, (net.ctx w).nodeId = peerId ∧ net.addr w = a
  | _ => True

section

variable {net} (hinj : Function.Injective net.addr)

theorem id_of_mem {n : NodeInfo} (hn : Truthful net n) {w : ν} (hw : net.addr w ∈ n.addresses)
    (hinj : Function.Injective net.addr) : (net.ctx w).nodeId = n.nodeId := by
  obtain ⟨w', hid, haddr⟩ := hn _ hw
  rw [← hinj haddr]
  exact hid

variable {label : Label ν}

include hinj

theorem answers_truthful {target peerId : NodeId} {addrs : List SocketAddr}
    (hpeer : ∀ a ∈ addrs, ∃ w, (net.ctx w).nodeId = peerId ∧ net.addr w = a) {msg : Message}
    (h : Answers (trust net label) (net.ctx label.node) target peerId addrs msg) :
    SenderGood (trust net label) addrs msg ∧ NodesGood (trust net label) msg := by
  have hmsg : NodeId.fromBytes msg.senderId = peerId ∧ NodesTruthful net msg := by
    rcases h with ⟨own, -, w, hw, hsaid⟩ | ⟨inner, out, resp, bytes, -, hown, ⟨w, -, hsaid⟩, hresp, hbytes⟩
    · refine ⟨?_, hsaid.nodes⟩
      rw [hsaid.sender]
      exact id_of_mem (n := NodeInfo.new 0 peerId own.senderKey addrs) hpeer hw hinj
    · obtain ⟨hid, hnodes⟩ := hsaid.relay peerId.asBytes inner 0 hown.payload bytes hresp _ msg hbytes
      exact ⟨by rw [hid]; rfl, hnodes⟩
  refine ⟨fun now => ?_, hmsg.2⟩
  rw [hmsg.1]
  exact hpeer

theorem response_says (hwire : WireFaithful net) (haddr : ∀ v, (net.addr v).onWire = net.addr v)
    {msg resp : Message} {payload : Payload}
    (h : Spoken (trust net label) (net.ctx label.node) msg payload)
    (hown : Own (net.ctx label.node) payload resp) : Says net label.node msg.payload resp := by
  refine ⟨hown.senderId, ?_, ?_⟩
  · intro nodes hnodes n hn now
    rw [hown.payload] at hnodes
    subst hnodes
    exact toInfo_good (truthful_stable net) (h n hn) now
  · intro target inner hops hasked bytes hbytes v m hm
    rw [hown.payload] at hbytes
    subst hbytes
    obtain ⟨out, resp', ⟨-, targetId, payload, hops', node, hmsg, hnode, hid, haddrs⟩,
      ⟨w, hw, hsaid⟩, hsent⟩ := h
    rw [hasked] at hmsg
    cases hmsg
    rw [hwire _ _ _ _ _ hsent hm]
    refine ⟨?_, nodesTruthful_onWire haddr hsaid.nodes⟩
    rw [haddrs] at hw
    have hsender := id_of_mem hnode hw hinj
    change resp'.senderId = target
    rw [hsaid.sender, hsender, hid]
    rfl

theorem task_does (hwire : WireFaithful net) (haddr : ∀ v, (net.addr v).onWire = net.addr v)
    (hfits : Fits net label.node label.job) :
    Keeps (trust net label).contract (fun _ _ => True) (fun _ => none)
      (Network.task (net.ctx label.node) label.job) := by
  have hown : ∀ payload addrs msg, Own (net.ctx label.node) payload msg →
      (trust net label).Sends ⟨.own, addrs, msg⟩ := fun _ _ _ h _ => h.senderId
  obtain ⟨id, node, job⟩ := label
  cases job with
  | handle fromAddr msg via =>
    refine handleInboundMessage_does (net.ctx node) hown fromAddr msg ?_ ?_ ?_ _
    · intro out hout horigin
      rw [hout.origin] at horigin
      cases horigin
    · rintro payload resp hspoken hresp _ ⟨⟩
      exact response_says hinj hwire haddr hspoken hresp
    · intro haccepted hclient now a ha
      obtain ⟨w, hid, rfl⟩ := hfits haccepted hclient
      rw [List.mem_singleton.mp ha]
      exact ⟨w, by rw [hid]; rfl, rfl⟩
  | replicate newNode => exact replicateChunksToNode_does (net.ctx node) hown newNode _
  | query target peerId addrs =>
    refine (queryPeer_does (net.ctx node) hown target peerId addrs ?_ _).bind fun _ _ _ => trivial
    exact fun msg h => answers_truthful hinj hfits h
  | bootstrap addrs =>
    refine doBootstrap_does (net.ctx node) hown ?_ ?_ addrs _
    · rintro addr msg ⟨own, -, w, hw, hsaid⟩ now a ha
      rw [List.mem_singleton.mp ha]
      exact ⟨w, by rw [hsaid.sender]; rfl, List.mem_singleton.mp hw⟩
    · rintro addr msg ⟨own, -, w, hw, hsaid⟩
      exact hsaid.nodes
  | request addrs target payload =>
    apply (ownMessage_does (net.ctx node) _ _ _).bind
    rintro g msg ⟨rfl, hmsg⟩
    exact (sendWithNatTraversal_does (net.ctx node) hown hmsg addrs target _).bind
      fun _ _ _ => trivial
  | save => exact saveRoutingTable_does _
  | cleanup => exact cleanupTick_does _
  | restart => exact trivial

end

end

/-! ## Runs -/

section

variable {ν : Type} [DecidableEq ν] (net : Network ν)

/-- Messages come from nodes of the network, and a lookup asks peers that its node was told about. -/
def Honest (x : Start ν) (s : NetState ν) : Prop :=
  match x with
  | .inject _ _ _ => False
  | .query node _ peerId addrs => Network.knows s node peerId addrs
  | _ => True

/-- An answer is the response of a node that handled the request. -/
def Replied (label : Label ν) (e : Op) (input : Input) (s : NetState ν) : Prop :=
  match e, input.answer with
  | .await request, some msg => ∃ r ∈ s.replies, r.node = label.node ∧ r.request = request ∧
    net.transmit r.responder label.node r.msg = some msg
  | _, _ => True

/-- A forwarded message that the node accepts is from a client, or from the relay itself. -/
def Direct (node : ν) : Job ν → Prop
  | .handle _ msg (some via) => via.origin = .forwarded → (net.ctx node).rejection msg = none →
    msg.clientMode = true ∨ msg.senderId = (net.ctx via.node).nodeId.asBytes
  | _ => True

def BeginsDirect (x : Start ν) (s : NetState ν) : Prop :=
  ∀ p ∈ net.job s x, Direct net p.1 p.2

/-- The peers that the nodes know and what they said about them, all truthful. -/
structure Truth (s : NetState ν) (gs : List (Label ν × Requests)) : Prop where
  sound : Sound (fun _ => Truthful net) s gs
  own : ∀ v, ∀ out ∈ (s.nodes v).requests, out.origin = .own →
    out.msg.senderId = (net.ctx v).nodeId.asBytes
  inserted : ∀ e ∈ s.trace, ∀ n ∈ e.op.inserted, Truthful net n
  handled : ∀ t ∈ gs, ∀ fromAddr msg via, t.1.job = .handle fromAddr msg (some via) →
    ∃ out, (s.nodes via.node).requests[via.request]? = some out ∧
      net.addr t.1.node ∈ out.addrs ∧ msg = out.msg.onWire
  replied : ∀ r ∈ s.replies, ∃ out, (s.nodes r.node).requests[r.request]? = some out ∧
    net.addr r.responder ∈ out.addrs ∧ Says net r.responder out.msg.payload r.msg

section

variable {net} (hwire : WireFaithful net)

include hwire

omit [DecidableEq ν] in
theorem start_fits {x : Start ν} {s : NetState ν} {gs : List (Label ν × Requests)} {node : ν}
    {job : Job ν} (hJ : Truth net s gs) (hhonest : Honest x s) (hdirect : BeginsDirect net x s)
    (hjob : net.job s x = some (node, job)) : Fits net node job := by
  have hnode := hdirect _ hjob
  cases x with
  | inject node fromAddr msg => exact hhonest.elim
  | deliver src request dst =>
    obtain ⟨out, msg, hout, -, hmsg, rfl, rfl⟩ := deliver_some hjob
    intro haccepted hclient
    refine ⟨src, ?_, rfl⟩
    cases horigin : out.origin with
    | own =>
      rw [transmit_some hwire hmsg]
      exact hJ.own src out (List.mem_of_getElem? hout) horigin
    | forwarded =>
      rcases hnode horigin haccepted with hmode | hsender
      · rw [hclient] at hmode
        cases hmode
      · exact hsender
  | query node' target peerId addrs =>
    cases hjob
    rcases hhonest with ⟨i, n, hn, rfl, rfl⟩ | ⟨e, he, -, n, hn, rfl, rfl⟩
    · exact (hJ.sound.nodes node).table.contains ⟨i, hn⟩
    · exact hJ.inserted e he n hn
  | replicate node' spawned =>
    obtain ⟨n, -, h⟩ := Option.map_eq_some_iff.mp hjob
    cases h
    exact trivial
  | _ =>
    cases hjob
    exact trivial

theorem start_truth {x : Start ν} {s s' : NetState ν} {label : Label ν} {t : NodeTask Unit}
    {gs : List (Label ν × Requests)} (hJ : Truth net s gs)
    (hx : net.start x s = some (s', label, t)) :
    Truth net s' (gs ++ [(label, fun _ => none)]) := by
  have hsound := start_sound net (fun _ => truthful_stable net) hJ.sound hx
  obtain ⟨hjob, -, rfl, -⟩ := start_some net hx
  obtain ⟨hrequests, htrace, hreplies⟩ := begun_frame net s x
  refine ⟨hsound, ?_, ?_, ?_, ?_⟩
  · intro v out hout
    rw [hrequests v] at hout
    exact hJ.own v out hout
  · intro e he
    exact hJ.inserted e (htrace ▸ he)
  · intro t ht fromAddr msg via hhandle
    dsimp only
    rw [hrequests]
    rcases List.mem_append.mp ht with ht | ht
    · exact hJ.handled t ht fromAddr msg via hhandle
    · obtain rfl := List.mem_singleton.mp ht
      dsimp only at hhandle
      rw [hhandle] at hjob
      cases x with
      | deliver src request dst =>
        obtain ⟨out, msg', hout, hdst, hmsg, hnode, hjob'⟩ := deliver_some hjob
        cases hjob'
        rw [hnode]
        exact ⟨out, hout, hdst, transmit_some hwire hmsg⟩
      | replicate node spawned =>
        obtain ⟨n, -, h⟩ := Option.map_eq_some_iff.mp hjob
        cases h
      | _ => cases hjob
  · intro r hr
    obtain ⟨out, hout, hsaid⟩ := hJ.replied r (hreplies ▸ hr)
    exact ⟨out, by rw [hrequests]; exact hout, hsaid⟩

end

theorem apply_truth {net : Network ν} (haddr : ∀ v, (net.addr v).onWire = net.addr v)
    (hwire : WireFaithful net) {label : Label ν} {g : Requests} {e : Op} {input : Input}
    {s : NetState ν} {gs : List (Label ν × Requests)} {i : Nat} (hok : Replied net label e input s)
    (howes : (trust net label).contract.owes g e) (hi : gs[i]? = some (label, g))
    (hJ : Truth net s gs) :
    (trust net label).contract.gets g e (net.apply label e input s).1 ∧
      Truth net (net.apply label e input s).2
        (gs.set i (label, (trust net label).contract.next g e (net.apply label e input s).1)) := by
  have hmem := List.mem_of_getElem? hi
  have hsound := apply_sound net (fun _ => truthful_stable net) (T := trust net) (fun _ => rfl) input
    howes hi hJ.sound ?_
  · refine ⟨hsound.1, hsound.2, ?_, ?_, ?_, ?_⟩
    · intro v out hout horigin
      rcases mem_requests_apply net hout with hout | ⟨rfl, rfl⟩
      · exact hJ.own v out hout horigin
      · exact howes horigin
    · intro e' he' n hn
      rcases List.mem_append.mp he' with he' | he'
      · exact hJ.inserted e' he' n hn
      · rw [List.mem_singleton.mp he'] at hn
        cases e with
        | insert node =>
          cases hn
          exact howes
        | _ => cases hn
    · intro t ht fromAddr msg via hhandle
      have hold : ∃ g, (t.1, g) ∈ gs := by
        rcases List.mem_or_eq_of_mem_set ht with ht | rfl
        · exact ⟨t.2, ht⟩
        · exact ⟨g, hmem⟩
      obtain ⟨g', hg'⟩ := hold
      obtain ⟨out, hout, hrest⟩ := hJ.handled _ hg' fromAddr msg via hhandle
      exact ⟨out, requests_apply net label e input hout, hrest⟩
    · intro r hr
      rcases List.mem_append.mp hr with hr | hr
      · obtain ⟨out, hout, hrest⟩ := hJ.replied r hr
        exact ⟨out, requests_apply net label e input hout, hrest⟩
      · -- the handler responds to the request that it handles
        obtain ⟨fromAddr, msg, via, addr, resp, hjob, rfl, rfl⟩ := mem_reply hr
        obtain ⟨out, hout, hdst, rfl⟩ := hJ.handled _ hmem fromAddr msg via hjob
        have hsaid : Says net label.node out.msg.onWire.payload resp := by
          apply howes
          rw [hjob]
          rfl
        refine ⟨out, requests_apply net label _ input hout, hdst, hsaid.sender, hsaid.nodes, ?_⟩
        intro target inner hops hasked
        exact hsaid.relay target inner hops (relayRequest_onWire.mpr hasked)
  · rintro request rfl out hout msg hmsg
    simp only [Replied, Option.mem_def.mp hmsg] at hok
    obtain ⟨r, hr, hnode, rfl, htransmit⟩ := hok
    obtain ⟨out', hout', hdst, hsaid⟩ := hJ.replied r hr
    have hsent := hJ.sound.linked _ hmem _ out hout
    rw [hnode] at hout'
    cases hout'.symm.trans hsent
    rw [transmit_some hwire htransmit]
    exact ⟨r.responder, hdst, says_onWire haddr hsaid⟩

/-- In a network of honest nodes, each with one address that survives the wire, every address in a
table is that of the node with its id, in every run in which no node accepts a request that was
forwarded for another node, unless that node is a client. -/
theorem addresses_truthful (hinj : Function.Injective net.addr)
    (haddr : ∀ v, (net.addr v).onWire = net.addr v) (hwire : WireFaithful net)
    (nodes : ν → NodeState) (hnodes : ∀ v, NodeGood (Truthful net) (nodes v))
    (as : List (Action (Start ν) Input))
    (hrun : Meets net.system.step
      (Allows (fun x s => Honest x s ∧ BeginsDirect net x s) (Replied net)) (Network.fresh nodes) as)
    (v : ν) (n : NodeInfo)
    (hn : Contains ((run net.system.step (Network.fresh nodes) as).state.nodes v).routingTable n) :
    ∀ a ∈ n.addresses, ∃ w, (net.ctx w).nodeId = n.nodeId ∧ net.addr w = a := by
  have hfresh : ∃ gs, Kept (fun label => (trust net label).contract) (Network.fresh nodes) gs ∧
      Truth net (Network.fresh nodes).state gs := by
    refine ⟨[], .nil, ⟨fun v => ⟨(hnodes v).table, (hnodes v).saved⟩, by rintro _ ⟨⟩⟩, ?_, ?_, ?_, ?_⟩
    · rintro v out ⟨⟩
    · rintro e ⟨⟩
    · rintro t ⟨⟩
    · rintro r ⟨⟩
  have hstart x s s' label t gs (hok : Honest x s ∧ BeginsDirect net x s) (hJ : Truth net s gs)
      (hx : net.system.start x s = some (s', label, t)) :
      ∃ g, Keeps (trust net label).contract (fun _ _ => True) g t ∧ Truth net s' (gs ++ [(label, g)]) := by
    obtain ⟨hjob, -, -, rfl⟩ := start_some net hx
    exact ⟨_, task_does hinj hwire haddr (start_fits hwire hJ hok.1 hok.2 hjob), start_truth hwire hJ hx⟩
  obtain ⟨gs, -, hJ⟩ := run_kept hstart
    (fun label g e input s gs i hok howes hi hJ => apply_truth haddr hwire hok howes hi hJ) hfresh hrun
  exact (hJ.sound.nodes v).table.contains hn

end

/-! ## Three nodes

The first node reaches the third through the second. -/

open Lib.Formats

/-- 32 bytes, the highest first. -/
def bytesOf (n : Nat) : Bytes32 := ⟨bigEndian 32 n, by simp [bigEndian]⟩

/-- The public keys of the secret keys `[1; 32]`, `[2; 32]` and `[3; 32]`. -/
def keyOf : Fin 3 → Bytes32
  | 0 => bytesOf 0x8a88e3dd7409f195fd52db2d3cba5d72ca6709bf1d94121bf3748801b40f6f5c
  | 1 => bytesOf 0x8139770ea87d175f56a35466c34c7ecccb8d8a91b4ee37a25df60f5b8fc9b394
  | 2 => bytesOf 0xed4928c628d1c2c6eae90338905995612959273a5c63f93636c14614ac8737d1

def idOf : Fin 3 → Bytes32
  | 0 => bytesOf 0x34750f98bd59fcfc946da45aaabe933be154a4b5094e1c4abf42866505f3c97e
  | 1 => bytesOf 0x6a3803d5f059902a1c6dafbc9ba4729212f7caac08634cc3ae76b27529f03827
  | 2 => bytesOf 0xb62e867fa2f33afe62d5d6b1642e1621d543307846b2a57b897e710919b76709

/-- The hashes of the keys with the nonce 0. -/
def powHashOf : Fin 3 → Bytes32
  | 0 => bytesOf 0x3df0686dc52ede729f13512551dec6ccb74155656981e77f225168d34c6f459e
  | 1 => bytesOf 0x8316e58692d35f73c716ae221dddbe0f815bc8ee5c093f33422a0f56fbf5ace1
  | 2 => bytesOf 0x504248853eed7492abf81b33676fbf3beb66a19a7ca8d285efd0f3b231b20510

def hashes : List (Bytes × Hash) :=
  (List.finRange 3).flatMap fun v =>
    [((keyOf v).bytes, idOf v), ((keyOf v).bytes ++ List.replicate 8 0, powHashOf v)]

/-- SHA-256, with the hashes that the nodes need at hand. -/
def sha256 (bytes : Bytes) : Hash := (hashes.lookup bytes).getD (Sha256.digest bytes)

theorem sha256_eq (bytes : Bytes) : sha256 bytes = Sha256.digest bytes := by
  have hall : ∀ p ∈ hashes, Sha256.digest p.1 = p.2 := by decide +kernel
  unfold sha256
  cases h : hashes.lookup bytes with
  | none => rfl
  | some hash =>
    obtain ⟨before, after, hsplit, -⟩ := List.lookup_eq_some_iff.mp h
    exact (hall (bytes, hash) (by rw [hsplit]; simp)).symm

def addrOf (v : Fin 3) : SocketAddr := .v4 127 0 0 1 (UInt16.ofNat (4431 + v))

/-- The two halves of a signature. -/
def halves (r s : Nat) : Bytes := bigEndian 32 r ++ bigEndian 32 s

/-- A message of node `v`, without proof of work. -/
def message (v : Fin 3) (msgId : UInt64) (payload : Payload) (signature : Bytes) : Message :=
  ⟨msgId, idOf v, keyOf v, ⟨0, 0⟩, payload, signature, false, 1⟩

def ping1 : Message := message 1 1 .pingRequest
  (halves 0x7049a5ddb675beda648599b0a8a3b302c8cd4eca641df791a5c1a8ac7b995a91
    0x19c700f22e2937646f81b9da98d7d27150c3d87bb0856e25986bbd2c0b380c0f)

def pong1 : Message := message 2 1 (.pingResponse (some (addrOf 1)))
  (halves 0xc1c3716e8b26c2b09c105aa17bb3cf21784b09d2665560ca3d8f1ab9b5401e77
    0x1757a3e409ca324067c61b82dd88a515fa883fdf49ff8996555a4e9d27802d02)

def ping2 : Message := message 0 2 .pingRequest
  (halves 0x080eb06624a4b6225e2eab857fbafee6f21deac42732e069ec37d6241f579c0c
    0x644f8880a646a174d413630161d2bcbd9ba64d6f4b51a80d738ea20327311307)

def pong2 : Message := message 1 2 (.pingResponse (some (addrOf 0)))
  (halves 0xe2b2d57def6089c87d90e94741e9bcce9e532c18b7dea550fb6bad63fd9266fc
    0x420879a5defb73c150d5ab9dc867c5a1c4de9e868b6b2f09ddec15117078d803)

def ping3 : Message := message 0 3 .pingRequest
  (halves 0xad7125d986c0a080355324fb4c18147f8292eb0f30790de11fb8ef1d92545486
    0xc30bf2ea8eda6388b2eb8b173439303208951c2f7cc42ef31ccfbb2649bb5c03)

def pong3 : Message := message 2 3 (.pingResponse (some (addrOf 0)))
  (halves 0x4553b44297885921fd7cc8ab43e01209e598ce3a9d7aa63d70769c879db82641
    0x75e1d6ade427af663df6c3b692f7d03926415273846d850ad819f45015f5f70a)

def find4 : Message := message 0 4 (.findNodeRequest (idOf 2))
  (halves 0x90ab7bbabc2fc4e7acfc78ee77bb3dd0d9b78cdeeb4032a85cde8cf2031944fc
    0xaf438fe9a2cf2588ec537d01d6d3d88615ff1b95e313ce423f11297bb92ace03)

/-- A message of the first node, which may be a client. -/
def first (client : Bool) (m : Message) : Message := { m with clientMode := client }

def relay5 (client : Bool) : Message :=
  message 0 5 (.relayRequest (idOf 2) (first client find4).toVec 0)
    (if client then
      halves 0xf1380290e9b4e89fe68ce4b72cd011f90585842a84370be400c1da5057560796
        0x1295e8d15be88180cbd0e2200ee473a31bbf9b536995b3c7f4b97919f7b67b06
    else
      halves 0xc2c9103152dc566ed23ca84945c39c455d159502696181b93f55fb74eac54c2d
        0x1dfba58508b8a321e84aadcf30b34ac6e382c439c5b7e6f02fcd5fab70a4000f)

def messages (client : Bool) : List Message :=
  [ping1, pong1, first client ping2, pong2, first client ping3, pong3, first client find4,
    first client (relay5 client)]

/-- The crates on these messages. -/
def threeCrates (client : Bool) : Crates :=
  { Crates.knowing [⟨Bytes32.fill 1, keyOf 0, [ping2, ping3, find4, relay5 client].map signedPart⟩,
      ⟨Bytes32.fill 2, keyOf 1, [ping1, pong2].map signedPart⟩,
      ⟨Bytes32.fill 3, keyOf 2, [pong1, pong3].map signedPart⟩] (messages client) with
    sha256 := sha256
    toBytes := fun m => if m ∈ messages client then some m.toVec else none }

def three (client : Bool) : Network (Fin 3) where
  ctx v :=
    let ctx := contextWith (threeCrates client)
    { ctx with
      secret := Bytes32.fill (UInt8.ofNat (v + 1))
      localAddr := addrOf v
      config := { ctx.config with clientMode := client && v = 0, proactiveReplication := false } }
  addr := addrOf

def threeNodes (client : Bool) (v : Fin 3) : NodeState :=
  { freshState with routingTable := RoutingTable.new 0 ((three client).ctx v).nodeId 20 }

abbrev Actions := List (Action (Start (Fin 3)) Input)

/-- A task begins. -/
def begin (x : Start (Fin 3)) : Actions := [.start x]

/-- The next `n` operations of task `i`. -/
def steps (i n : Nat) (random : UInt64) (answer : Option Message) : Actions :=
  List.replicate n (.run i { quietInput with random, answer })

/-- The second node pings the third, and the first node both. Then the first node looks for a node at
the third, gets no answer, and asks the second node to forward its request. -/
def relayRun : Actions :=
  let third := NodeId.fromBytes (idOf 2)
  List.flatten
    [begin (.bootstrap 1 [addrOf 2]), steps 0 2 1 none,
      begin (.deliver 1 0 2), steps 1 3 0 none, steps 0 4 0 (some pong1),
      begin (.bootstrap 0 [addrOf 1, addrOf 2]), steps 2 2 2 none, steps 2 2 3 none,
      begin (.deliver 0 0 1), steps 3 3 0 none, begin (.deliver 0 1 2), steps 4 3 0 none,
      steps 2 1 0 (some pong2), steps 2 1 0 (some pong3), steps 2 6 0 none,
      begin (.query 0 third third [addrOf 2]), steps 5 4 4 none, steps 5 2 5 none,
      begin (.deliver 0 3 1), steps 6 5 0 none, begin (.deliver 1 1 2), steps 7 2 0 none]

def threeTable (client : Bool) (v : Fin 3) : RoutingTable :=
  ((run (three client).system.step (Network.fresh (threeNodes client)) relayRun).state.nodes v).routingTable

section

variable {ν : Type} [DecidableEq ν] (net : Network ν)

instance (x : Start ν) (s : NetState ν) : Decidable (Honest x s) := by
  unfold Honest
  split <;> infer_instance

instance (label : Label ν) (e : Op) (input : Input) (s : NetState ν) :
    Decidable (Replied net label e input s) := by
  unfold Replied
  split <;> infer_instance

instance (node : ν) (job : Job ν) : Decidable (Direct net node job) := by
  unfold Direct
  split <;> infer_instance

instance (x : Start ν) (s : NetState ν) : Decidable (BeginsDirect net x s) :=
  inferInstanceAs (Decidable (∀ p ∈ net.job s x, _))

end

theorem three_wireFaithful (client : Bool) : WireFaithful (three client) := by
  have hall : ∀ client, ∀ m ∈ messages client, ∀ m' ∈ messages client, m'.toVec = m.toVec →
      m' = m.onWire := by decide +kernel
  intro u v m bytes m' hbytes hm'
  have hm : m ∈ messages client ∧ bytes = m.toVec := by
    change (if m ∈ messages client then some m.toVec else none) = some bytes at hbytes
    split at hbytes
    next h => exact ⟨h, (Option.some.inj hbytes).symm⟩
    next => cases hbytes
  change (messages client).find? (fun m => m.toVec = bytes) = some m' at hm'
  have hvec : m'.toVec = bytes := by simpa using List.find?_some hm'
  exact hall client m hm.1 m' (List.mem_of_find?_eq_some hm') (hvec.trans hm.2)

theorem addrOf_injective : Function.Injective addrOf := by
  unfold Function.Injective
  decide

/-- The second node. -/
def secondPeer : NodeInfo := NodeInfo.new 0 (NodeId.fromBytes (idOf 1)) (keyOf 1) [addrOf 1]

/-- The first node, with the address of the second. -/
def misplacedPeer : NodeInfo :=
  NodeInfo.new 0 (NodeId.fromBytes (idOf 0)) (keyOf 0) [addrOf 0, addrOf 1]

theorem mem_threeTable :
    secondPeer ∈ (threeTable true 2).closestNodes secondPeer.nodeId 1 ∧
      misplacedPeer ∈ (threeTable false 2).closestNodes misplacedPeer.nodeId 1 := by
  decide +kernel

/-- The first node is a client, so the third node handles the forwarded request and does not store its
sender. It knows the second node at its own address. -/
theorem addresses_truthful_client :
    Contains (threeTable true 2) secondPeer ∧
      ∃ w, ((three true).ctx w).nodeId = secondPeer.nodeId ∧ addrOf w = addrOf 1 := by
  have hmem := contains_of_closestNodes mem_threeTable.1
  have hrun := hmem
  rw [threeTable] at hrun
  have hfresh v : NodeGood (Truthful (three true)) (threeNodes true v) :=
    ⟨new_tableGood _ _ _, by rintro _ ⟨⟩⟩
  refine ⟨hmem, ?_⟩
  exact addresses_truthful (three true) addrOf_injective (by decide) (three_wireFaithful true)
    (threeNodes true) hfresh relayRun (by decide +kernel) 2 secondPeer hrun (addrOf 1)
    List.mem_cons_self

/-- Every node follows the code, and yet the third node stores the first with the address of the
second. -/
theorem relay_misplaces_sender :
    Function.Injective addrOf ∧ (∀ v, (addrOf v).onWire = addrOf v) ∧ WireFaithful (three false) ∧
      Meets (three false).system.step (Allows Honest (Replied (three false)))
        (Network.fresh (threeNodes false)) relayRun ∧
      Contains (threeTable false 2) misplacedPeer ∧
      ∃ a ∈ misplacedPeer.addresses,
        ¬∃ w, ((three false).ctx w).nodeId = misplacedPeer.nodeId ∧ addrOf w = a := by
  refine ⟨addrOf_injective, by decide, three_wireFaithful false, by decide +kernel,
    contains_of_closestNodes mem_threeTable.2, addrOf 1, by decide, ?_⟩
  decide +kernel

end TesserasDht.Addresses
