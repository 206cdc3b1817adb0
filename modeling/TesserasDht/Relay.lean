import TesserasDht.Addresses

/-!
# Forwarding for other nodes

The ghost state of a task remembers its last lookup in the routing table, and whether it forwarded a
message.
-/

open Lib.Lists Lib.Tasks Lib.Runs Lib.Formats

namespace TesserasDht.Relay

open Admission Conduct Peers

/-! ## The inner message -/

/-- What a message has to pass before it is forwarded. -/
structure Verified (ctx : HandlerContext) (msg : Message) : Prop where
  key : ctx.crates.validKey msg.senderKey = true
  id : msg.senderId = ctx.crates.sha256 msg.senderKey.bytes
  difficulty : ctx.config.minPowDifficulty ≤ msg.powProof.difficulty
  pow : msg.powProof.difficulty.toNat ≤ leadingZeroBits (ctx.crates.sha256
    (msg.senderKey.bytes ++ (bigEndian 8 msg.powProof.nonce.toNat).reverse)).bytes
  signature : msg.verifySignature ctx.crates = true

theorem verified_of {ctx : HandlerContext} {msg : Message} (h : ctx.verifyInnerMessage msg = true) :
    Verified ctx msg := by
  unfold HandlerContext.verifyInnerMessage at h
  split_ifs at h with hkey hid hpow hsig
  simp only [Bool.not_eq_true', Bool.not_eq_false] at hkey hid hpow hsig
  obtain ⟨hdifficulty, hhash⟩ := (verifyWithMinDifficulty_iff _ _ _ _).mp hpow
  exact ⟨hkey, (verifyNodeId_iff _ _ _).mp hid, hdifficulty, hhash, hsig⟩

/-! ## The contract of a task -/

/-- The last lookup of a task, and whether the task forwarded a message. -/
structure Relaying where
  looked : Option (NodeId × Nat × List NodeInfo)
  forwarded : Bool

/-- The task handles a relay request, and `out` takes its inner message to the node that was found. -/
structure Permits {ν : Type} (ctx : HandlerContext) (job : Job ν)
    (looked : Option (NodeId × Nat × List NodeInfo)) (out : Outgoing) : Prop where
  request : ∃ fromAddr msg via targetId payload hops, job = .handle fromAddr msg via ∧
    msg.payload = .relayRequest targetId payload hops ∧
    ctx.crates.fromBytes payload = some out.msg ∧
    ∃ found, looked = some (NodeId.fromBytes targetId, 1, found) ∧
      ∃ node ∈ found, node.nodeId = NodeId.fromBytes targetId ∧ out.addrs = node.addresses
  inner : out.msg.payload.isRelayRequest = false
  verified : Verified ctx out.msg

/-- Peers, requests and answers may be any. -/
def anything : Trust where
  Good _ := True
  Sends _ := True
  Reply _ _ := True
  Responds _ := True

/-- Nothing is forwarded. -/
def ownOnly : Trust := { anything with Sends := fun out => out.origin = .own }

/-- The operation forwards a message. -/
def Op.forwards : Op → Bool
  | .send out => out.origin = .forwarded
  | _ => false

def contract {ν : Type} (ctx : HandlerContext) (job : Job ν) :
    Contract (Requests × Relaying) Op Op.Result where
  owes g e := match e with
    | .send out => out.origin = .forwarded → g.2.forwarded = false ∧ Permits ctx job g.2.looked out
    | _ => True
  gets g e r := anything.contract.gets g.1 e r
  next g e r := (anything.contract.next g.1 e r, match e, r with
    | .closestNodes target count, found => { g.2 with looked := some (target, count, found) }
    | e, _ => { g.2 with forwarded := g.2.forwarded || Op.forwards e })

theorem forwarded_next {ν : Type} (ctx : HandlerContext) (job : Job ν) (g : Requests × Relaying)
    (e : Op) (r : e.Result) :
    ((contract ctx job).next g e r).2.forwarded = (g.2.forwarded || Op.forwards e) := by
  cases e with
  | closestNodes target count => exact (Bool.or_false _).symm
  | _ => rfl

section

variable {ν : Type} (ctx : HandlerContext) {job : Job ν} {α : Type}

theorem keeps_of_ownOnly {t : NodeTask α} {Q : Requests → α → Prop} {g : Requests} {d : Relaying}
    (h : Does ownOnly g t Q) (hd : d.forwarded = false) :
    Keeps (contract ctx job) (fun p _ => p.2.forwarded = false) (g, d) t := by
  suffices hlift : Keeps (contract ctx job) (fun p a => Q p.1 a ∧ p.2.forwarded = false) (g, d) t from
    hlift.mono fun _ _ h => h.2
  refine Keeps.lift (I := fun d : Relaying => d.forwarded = false) ?_ ?_ ?_ h hd
  · intro g d e howes _
    cases e with
    | send out =>
      intro horigin
      cases howes.symm.trans horigin
    | _ => exact trivial
  · exact fun g d e r hr => hr
  · intro g d e r howes hd
    refine ⟨by cases e <;> rfl, ?_⟩
    have hown : Op.forwards e = false := by
      cases e with
      | send out =>
        have hout : out.origin = .own := howes
        simp [Op.forwards, hout]
      | _ => rfl
    rw [forwarded_next, hd, hown]
    rfl

section

variable {fromAddr : SocketAddr} {msg : Message} {via : Option (Sent ν)} {targetId : Bytes32}
  {payload : Bytes} {hops : UInt8} (hmsg : msg.payload = .relayRequest targetId payload hops)
  (g : Requests) {d : Relaying} (hd : d.forwarded = false)

include hmsg hd

theorem forward_keeps {inner : Message} (hinner : ctx.crates.fromBytes payload = some inner)
    (hrelay : inner.payload.isRelayRequest = false) (hverified : Verified ctx inner) :
    Keeps (contract ctx (.handle fromAddr msg via)) (fun _ _ => True) (g, d)
      (ctx.forward targetId inner) := by
  unfold HandlerContext.forward
  refine Keeps.perform trivial fun found _ => ?_
  split
  · exact trivial
  next node hfind =>
    have hnode : node.nodeId = NodeId.fromBytes targetId ∧ node.addresses ≠ [] := by
      simpa using List.find?_some hfind
    have hpermits (looked) (hlooked : looked = some (NodeId.fromBytes targetId, 1, found)) :
        Permits ctx (.handle fromAddr msg via) looked ⟨.forwarded, node.addresses, inner⟩ :=
      ⟨⟨fromAddr, msg, via, targetId, payload, hops, rfl, hmsg, hinner, found, hlooked, node,
        List.mem_of_find?_eq_some hfind, hnode.1, rfl⟩, hrelay, hverified⟩
    have hsend : Keeps (contract ctx (.handle fromAddr msg via)) (fun _ _ => True)
        ((contract ctx (.handle fromAddr msg via)).next (g, d)
          (.closestNodes (NodeId.fromBytes targetId) 1) found)
        (sendRequestAny .forwarded node.addresses inner) := by
      unfold sendRequestAny
      rw [if_neg hnode.2]
      exact ⟨fun _ => ⟨hd, hpermits _ rfl⟩, fun request _ => ⟨trivial, fun _ _ => trivial⟩⟩
    apply hsend.bind
    intro g' r _
    cases r with
    | none => exact trivial
    | some resp =>
      dsimp only
      split
      · exact trivial
      · exact trivial

theorem relay_keeps :
    Keeps (contract ctx (.handle fromAddr msg via)) (fun _ _ => True) (g, d)
      (ctx.relay fromAddr targetId payload hops) := by
  unfold HandlerContext.relay
  split_ifs
  · exact trivial
  · exact trivial
  · refine Keeps.perform trivial fun checked _ => ?_
    split
    · split
      · exact trivial
      next inner hinner =>
        split_ifs with hrelay hverify
        · exact trivial
        · exact trivial
        · simp only [Bool.not_eq_true', Bool.not_eq_false] at hverify
          apply forward_keeps ctx hmsg g ?_ hinner (Bool.not_eq_true _ ▸ hrelay) (verified_of hverify)
          rw [hd]
          rfl
    · exact trivial

theorem answer_keeps :
    Keeps (contract ctx (.handle fromAddr msg via)) (fun _ _ => True) (g, d)
      (ctx.answer fromAddr msg) := by
  have hrespond : Keeps (contract ctx (.handle fromAddr msg via)) (fun _ _ => True) (g, d)
      (ctx.respond fromAddr msg) := by
    unfold HandlerContext.respond
    rw [hmsg]
    exact (relay_keeps ctx hmsg g hd).bind fun _ _ _ => trivial
  apply hrespond.bind
  intro g' r _
  cases r with
  | none => exact trivial
  | some payload => exact ⟨trivial, fun _ _ => trivial⟩

end

theorem own_sends (payload : Payload) (addrs : List SocketAddr) (msg : Message)
    (_ : Own ctx payload msg) : ownOnly.Sends ⟨.own, addrs, msg⟩ := rfl

theorem handle_keeps (fromAddr : SocketAddr) (msg : Message) (via : Option (Sent ν)) (g : Requests)
    {d : Relaying} (hd : d.forwarded = false) :
    Keeps (contract ctx (.handle fromAddr msg via)) (fun _ _ => True) (g, d)
      (ctx.handleInboundMessage fromAddr msg) := by
  by_cases hrelay : ∃ targetId payload hops, msg.payload = .relayRequest targetId payload hops
  · obtain ⟨targetId, payload, hops, hmsg⟩ := hrelay
    unfold HandlerContext.handleInboundMessage
    split
    · exact trivial
    · split
      · exact answer_keeps ctx hmsg g hd
      · have hsender : SenderGood ownOnly [fromAddr] msg := fun _ => trivial
        apply (keeps_of_ownOnly ctx (insertSender_does ctx (own_sends ctx) hsender g) hd).bind
        rintro ⟨g', d'⟩ r hd'
        cases r with
        | error e => exact trivial
        | ok u => exact answer_keeps ctx hmsg g' hd'
  · -- any other request forwards nothing
    have hforward : ∀ out, Forwards ownOnly msg out → ownOnly.Sends out := by
      intro out hout
      obtain ⟨targetId, payload, hops, node, hmsg, -⟩ := hout.target
      exact absurd ⟨targetId, payload, hops, hmsg⟩ hrelay
    exact (keeps_of_ownOnly ctx (handleInboundMessage_does ctx (own_sends ctx) fromAddr msg hforward
      (fun _ _ _ _ => trivial) (fun _ _ _ => trivial) g) hd).mono fun _ _ _ => trivial

theorem task_keeps (job : Job ν) :
    Keeps (contract ctx job) (fun _ _ => True) (fun _ => none, ⟨none, false⟩)
      (Network.task ctx job) := by
  have hquiet {t : NodeTask Unit} (h : Does ownOnly (fun _ => none) t fun _ _ => True) :
      Keeps (contract ctx job) (fun _ _ => True) (fun _ => none, ⟨none, false⟩) t :=
    (keeps_of_ownOnly ctx h rfl).mono fun _ _ _ => trivial
  cases job with
  | handle fromAddr msg via => exact handle_keeps ctx fromAddr msg via _ rfl
  | replicate newNode => exact hquiet (replicateChunksToNode_does ctx (own_sends ctx) newNode _)
  | query target peerId addrs =>
    exact hquiet ((queryPeer_does ctx (own_sends ctx) target peerId addrs
      (fun _ _ => ⟨fun _ => trivial, fun _ _ _ _ _ => trivial⟩) _).bind fun _ _ _ => trivial)
  | bootstrap addrs =>
    exact hquiet (doBootstrap_does ctx (own_sends ctx) (fun _ _ _ _ => trivial)
      (fun _ _ _ _ _ _ _ _ => trivial) addrs _)
  | request addrs target payload =>
    apply hquiet
    apply (ownMessage_does ctx _ _ _).bind
    rintro g msg ⟨rfl, hmsg⟩
    exact (sendWithNatTraversal_does ctx (own_sends ctx) hmsg addrs target _).bind
      fun _ _ _ => trivial
  | save => exact hquiet (saveRoutingTable_does _)
  | cleanup => exact hquiet (cleanupTick_does _)
  | restart => exact trivial

end

/-! ## Runs -/

section

variable {ν : Type} (net : Network ν)

/-- The forwards of the task with this number. -/
def forwardsOf (id : Nat) (trace : List (Event ν)) : List (Event ν) :=
  trace.filter fun e => e.label.id = id ∧ Op.forwards e.op = true

/-- Why a message may be forwarded, after the operations `earlier`. -/
structure Justified (earlier : List (Event ν)) (label : Label ν) (out : Outgoing) : Prop where
  /-- The task handles a relay request for a node that it found in the routing table, and that
  request was not forwarded itself. -/
  request : ∃ fromAddr msg via targetId payload hops node, label.job = .handle fromAddr msg via ∧
    (∀ sent ∈ via, sent.origin = .own) ∧ msg.payload = .relayRequest targetId payload hops ∧
    (net.ctx label.node).crates.fromBytes payload = some out.msg ∧
    (∃ look ∈ earlier, look.label = label ∧
      look.table.closestNodes (NodeId.fromBytes targetId) 1 = [node]) ∧
    node.nodeId = NodeId.fromBytes targetId ∧ out.addrs = node.addresses
  inner : out.msg.payload.isRelayRequest = false
  verified : Verified (net.ctx label.node) out.msg

/-- Messages of one variant are read as messages of that variant. -/
def KeepsRelayRequests : Prop :=
  ∀ u v m m', net.transmit u v m = some m' → m'.payload.isRelayRequest = m.payload.isRelayRequest

abbrev Ghosts (ν : Type) := List (Label ν × Requests × Relaying)

/-- What the ghost states say about the trace. -/
structure Recorded (s : NetState ν) (gs : Ghosts ν) : Prop where
  sound : Sound (fun _ _ => True) s (gs.map fun t => (t.1, t.2.1))
  count : gs.length = s.started
  ids : ∀ i : Nat, ∀ t, gs[i]? = some t → t.1.id = i
  labels : ∀ e ∈ s.trace, e.label.id < s.started
  forwards : ∀ t ∈ gs, (forwardsOf t.1.id s.trace).length = if t.2.2.forwarded then 1 else 0
  looked : ∀ t ∈ gs, ∀ target count found, t.2.2.looked = some (target, count, found) →
    ∃ look ∈ s.trace, look.label = t.1 ∧ found = look.table.closestNodes target count
  justified : ∀ i e out, s.trace[i]? = some e → e.op = .send out → out.origin = .forwarded →
    Justified net (s.trace.take i) e.label out
  requests : ∀ v, ∀ out ∈ (s.nodes v).requests, out.origin = .forwarded →
    out.msg.payload.isRelayRequest = false
  handled : ∀ t ∈ gs, ∀ fromAddr msg sent, t.1.job = .handle fromAddr msg (some sent) →
    sent.origin = .forwarded → msg.payload.isRelayRequest = false

theorem forwardsOf_concat (id : Nat) (trace : List (Event ν)) (e : Event ν) :
    (forwardsOf id (trace ++ [e])).length =
      (forwardsOf id trace).length + if e.label.id = id ∧ Op.forwards e.op = true then 1 else 0 := by
  unfold forwardsOf
  rw [List.filter_append, List.length_append, List.filter_singleton]
  split
  next h => simp [h]
  next h => simp [h]

theorem forwardsOf_eq_nil {id started : Nat} {trace : List (Event ν)}
    (h : ∀ e ∈ trace, e.label.id < started) (hid : started ≤ id) : forwardsOf id trace = [] := by
  apply List.filter_eq_nil_iff.mpr
  intro e he
  have hlt := h e he
  simp only [decide_eq_true_eq]
  omega

theorem closestNodes_one {t : RoutingTable} {target : NodeId} {node : NodeInfo}
    (h : node ∈ t.closestNodes target 1) : t.closestNodes target 1 = [node] := by
  have hlen : (t.closestNodes target 1).length ≤ 1 := by
    unfold RoutingTable.closestNodes
    exact List.length_take_le 1 _
  obtain ⟨rest, hrest⟩ := List.exists_cons_of_length_pos (List.length_pos_of_mem h)
  obtain ⟨l, hl⟩ := hrest
  rw [hl] at h hlen ⊢
  rw [List.length_cons] at hlen
  obtain rfl := List.length_eq_zero_iff.mp (by omega : l.length = 0)
  rw [List.mem_singleton.mp h]

end

section

variable {ν : Type} [DecidableEq ν] {net : Network ν}

theorem start_recorded (hwire : KeepsRelayRequests net) {x : Start ν} {s s' : NetState ν}
    {label : Label ν} {t : NodeTask Unit} {gs : Ghosts ν} (hJ : Recorded net s gs)
    (hx : net.start x s = some (s', label, t)) :
    Recorded net s' (gs ++ [(label, fun _ => none, ⟨none, false⟩)]) := by
  have hsound := start_sound net (fun _ => by intro _ _ _ _ _ _ _ _ _; trivial) hJ.sound hx
  obtain ⟨hjob, hid, rfl, -⟩ := start_some net hx
  obtain ⟨hrequests, htrace, -⟩ := begun_frame net s x
  refine ⟨by rw [List.map_append]; exact hsound, ?_, ?_, ?_, ?_, ?_, ?_, ?_, ?_⟩
  · rw [List.length_append, hJ.count]
    rfl
  · intro i t ht
    rcases getElem?_concat_some ht with ht | ⟨rfl, rfl⟩
    · exact hJ.ids i t ht
    · rw [hJ.count]
      exact hid
  · intro e he
    rw [htrace] at he
    exact Nat.lt_succ_of_lt (hJ.labels e he)
  · intro t ht
    dsimp only
    rw [htrace]
    rcases List.mem_append.mp ht with ht | ht
    · exact hJ.forwards t ht
    · rw [List.mem_singleton.mp ht, forwardsOf_eq_nil hJ.labels (by rw [hid])]
      rfl
  · intro t ht target count found hlooked
    dsimp only
    rw [htrace]
    rcases List.mem_append.mp ht with ht | ht
    · exact hJ.looked t ht target count found hlooked
    · rw [List.mem_singleton.mp ht] at hlooked
      cases hlooked
  · dsimp only
    rw [htrace]
    exact hJ.justified
  · intro v out hout
    rw [hrequests] at hout
    exact hJ.requests v out hout
  · intro t ht fromAddr msg sent hhandle horigin
    rcases List.mem_append.mp ht with ht | ht
    · exact hJ.handled t ht fromAddr msg sent hhandle horigin
    · obtain rfl := List.mem_singleton.mp ht
      dsimp only at hhandle
      rw [hhandle] at hjob
      cases x with
      | deliver src request dst =>
        obtain ⟨out, msg', hout, -, hmsg, -, hjob'⟩ := deliver_some hjob
        cases hjob'
        rw [hwire _ _ _ _ hmsg]
        exact hJ.requests src out (List.mem_of_getElem? hout) horigin
      | replicate node spawned =>
        obtain ⟨n, -, h⟩ := Option.map_eq_some_iff.mp hjob
        cases h
      | _ => cases hjob

theorem owes_anything (g : Requests) (e : Op) : anything.contract.owes g e := by
  cases e with
  | savePeersBatch peers =>
    exact fun p _ => ⟨NodeInfo.new 0 (NodeId.fromBytes p.nodeId) p.publicKey p.addresses, trivial, rfl⟩
  | _ => exact trivial

section

variable {label : Label ν} {g : Requests × Relaying} {e : Op} {input : Input} {s : NetState ν}
  {gs : Ghosts ν} {i : Nat} (hi : gs[i]? = some (label, g)) (hJ : Recorded net s gs)

include hi hJ

/-- The operation is recorded last. -/
def recorded (label : Label ν) (e : Op) (s : NetState ν) : Event ν :=
  ⟨label, e, (s.nodes label.node).routingTable⟩

theorem forwards_apply (howes : (contract (net.ctx label.node) label.job).owes g e) {j : Nat}
    {t : Label ν × Requests × Relaying}
    (ht : (gs.set i (label, (contract (net.ctx label.node) label.job).next g e
      (net.apply label e input s).1))[j]? = some t) :
    (forwardsOf t.1.id (s.trace ++ [recorded label e s])).length =
      if t.2.2.forwarded then 1 else 0 := by
  have hold := hJ.forwards _ (List.mem_of_getElem? hi)
  have hid := hJ.ids i _ hi
  rw [forwardsOf_concat]
  rcases getElem?_set_some ht with ⟨rfl, rfl⟩ | ⟨hne, ht⟩
  · have hfirst : Op.forwards e = true → g.2.forwarded = false := by
      cases e with
      | send out => exact fun horigin => (howes (by simpa [Op.forwards] using horigin)).1
      | _ => rintro ⟨⟩
    dsimp only at hold ⊢
    rw [hold, forwarded_next, recorded]
    cases hforwards : Op.forwards e with
    | false => simp
    | true => simp [hfirst hforwards]
  · have hother := hJ.ids j t ht
    have hdiffers : ¬((recorded label e s).label.id = t.1.id ∧
        Op.forwards (recorded label e s).op = true) := by
      rintro ⟨hsame, -⟩
      exact hne (hother.symm.trans (hsame.symm.trans hid))
    rw [hJ.forwards t (List.mem_of_getElem? ht), if_neg hdiffers, Nat.add_zero]

theorem looked_apply {t : Label ν × Requests × Relaying}
    (ht : t ∈ gs.set i (label, (contract (net.ctx label.node) label.job).next g e
      (net.apply label e input s).1)) {target : NodeId} {count : Nat} {found : List NodeInfo}
    (hlooked : t.2.2.looked = some (target, count, found)) :
    ∃ look ∈ s.trace ++ [recorded label e s], look.label = t.1 ∧
      found = look.table.closestNodes target count := by
  have hcur := List.mem_of_getElem? hi
  have hold {t : Label ν × Requests × Relaying} (ht : t ∈ gs)
      (h : t.2.2.looked = some (target, count, found)) :
      ∃ look ∈ s.trace ++ [recorded label e s], look.label = t.1 ∧
        found = look.table.closestNodes target count := by
    obtain ⟨look, hlook, hrest⟩ := hJ.looked t ht target count found h
    exact ⟨look, List.mem_append_left _ hlook, hrest⟩
  rcases List.mem_or_eq_of_mem_set ht with ht | rfl
  · exact hold ht hlooked
  · cases e with
    | closestNodes target' count' =>
      cases hlooked
      exact ⟨_, List.mem_append_right _ List.mem_cons_self, rfl, rfl⟩
    | _ => exact hold (t := (label, g)) hcur hlooked

omit [DecidableEq ν] in
theorem justified_apply {out : Outgoing}
    (howes : (contract (net.ctx label.node) label.job).owes g (.send out))
    (horigin : out.origin = .forwarded) : Justified net s.trace label out := by
  have hmem := List.mem_of_getElem? hi
  obtain ⟨-, hpermits⟩ := howes horigin
  obtain ⟨fromAddr, msg, via, targetId, payload, hops, hjob, hmsg, hinner, found, hlooked, node, hnode,
    hid, haddrs⟩ := hpermits.request
  obtain ⟨look, hlook, hlabel, rfl⟩ := hJ.looked _ hmem _ _ _ hlooked
  refine ⟨⟨fromAddr, msg, via, targetId, payload, hops, node, hjob, ?_, hmsg, hinner,
    ⟨look, hlook, hlabel, closestNodes_one hnode⟩, hid, haddrs⟩, hpermits.inner, hpermits.verified⟩
  intro sent hsent
  cases hforwarded : sent.origin with
  | own => rfl
  | forwarded =>
    -- a forwarded message is no relay request
    rw [Option.mem_def.mp hsent] at hjob
    have hno := hJ.handled _ hmem fromAddr msg sent hjob hforwarded
    rw [hmsg] at hno
    cases hno

theorem apply_recorded (howes : (contract (net.ctx label.node) label.job).owes g e) :
    (contract (net.ctx label.node) label.job).gets g e (net.apply label e input s).1 ∧
      Recorded net (net.apply label e input s).2 (gs.set i (label,
        (contract (net.ctx label.node) label.job).next g e (net.apply label e input s).1)) := by
  have hmem := List.mem_of_getElem? hi
  have hsound := apply_sound net (fun _ => by intro _ _ _ _ _ _ _ _ _; trivial)
    (T := fun _ => anything) (fun _ => rfl) input (owes_anything g.1 e)
    (show (gs.map fun t => (t.1, t.2.1))[i]? = some (label, g.1) by rw [List.getElem?_map, hi]; rfl)
    hJ.sound (fun _ _ _ _ _ _ => trivial)
  refine ⟨hsound.1, by rw [List.map_set]; exact hsound.2, ?_, ?_, ?_, ?_, ?_, ?_, ?_, ?_⟩
  · rw [List.length_set]
    exact hJ.count
  · intro j t ht
    rcases getElem?_set_some ht with ⟨rfl, rfl⟩ | ⟨-, ht⟩
    · exact hJ.ids j (label, g) hi
    · exact hJ.ids j t ht
  · intro e' he'
    rcases List.mem_append.mp he' with he' | he'
    · exact hJ.labels e' he'
    · rw [List.mem_singleton.mp he']
      have hlt := (List.getElem?_eq_some_iff.mp hi).1
      rw [hJ.count] at hlt
      rw [← hJ.ids i _ hi] at hlt
      exact hlt
  · intro t ht
    obtain ⟨j, hj⟩ := List.mem_iff_getElem?.mp ht
    exact forwards_apply hi hJ howes hj
  · intro t ht target count found
    exact looked_apply hi hJ ht
  · intro j e' out hj hop horigin
    rcases getElem?_concat_some hj with hj | ⟨rfl, rfl⟩
    · have hlt := (List.getElem?_eq_some_iff.mp hj).1
      change Justified net ((s.trace ++ [_]).take j) e'.label out
      rw [List.take_append_of_le_length (by omega)]
      exact hJ.justified j e' out hj hop horigin
    · change Justified net ((s.trace ++ [_]).take s.trace.length) label out
      rw [List.take_left]
      dsimp only at hop
      subst hop
      exact justified_apply hi hJ howes horigin
  · intro v out hout horigin
    rcases mem_requests_apply net hout with hout | ⟨-, rfl⟩
    · exact hJ.requests v out hout horigin
    · exact (howes horigin).2.inner
  · intro t ht
    rcases List.mem_or_eq_of_mem_set ht with ht | rfl
    · exact hJ.handled t ht
    · exact hJ.handled (label, g) hmem

end

/-- Whatever is sent to the nodes, and in whatever order they run: a task forwards at most one message,
the inner message of the relay request that it handles, to the node in its table that has the id of
the target. The inner message is no relay request and passed the checks. A relay request that is
acted on was not forwarded itself. -/
theorem relay_never_chains (hwire : KeepsRelayRequests net) (nodes : ν → NodeState)
    (as : List (Action (Start ν) Input)) :
    let history := (run net.system.step (Network.fresh nodes) as).state.trace
    (∀ id, (forwardsOf id history).length ≤ 1) ∧
      ∀ i e out, history[i]? = some e → e.op = .send out → out.origin = .forwarded →
        Justified net (history.take i) e.label out := by
  have hfresh : ∃ gs, Kept (fun label => contract (net.ctx label.node) label.job)
      (Network.fresh nodes) gs ∧ Recorded net (Network.fresh nodes).state gs := by
    refine ⟨[], .nil, ⟨fun v => ⟨fun i => ⟨fun _ _ => trivial, fun _ _ => trivial⟩, ?_⟩, ?_⟩,
      rfl, ?_, ?_, ?_, ?_, ?_, ?_, ?_⟩
    · exact fun p _ => ⟨NodeInfo.new 0 (NodeId.fromBytes p.nodeId) p.publicKey p.addresses, trivial, rfl⟩
    · rintro t ⟨⟩
    · rintro i t ⟨⟩
    · rintro e ⟨⟩
    · rintro t ⟨⟩
    · rintro t ⟨⟩
    · rintro i e out ⟨⟩
    · rintro v out ⟨⟩
    · rintro t ⟨⟩
  have hstart x s s' label t gs (_ : True) (hJ : Recorded net s gs)
      (hx : net.system.start x s = some (s', label, t)) :
      ∃ g, Keeps (contract (net.ctx label.node) label.job) (fun _ _ => True) g t ∧
        Recorded net s' (gs ++ [(label, g)]) := by
    obtain ⟨-, -, -, rfl⟩ := start_some net hx
    exact ⟨_, task_keeps (net.ctx label.node) label.job, start_recorded hwire hJ hx⟩
  have hall : Meets net.system.step (Allows (fun _ _ => True) fun _ _ _ _ => True)
      (Network.fresh nodes) as := meets_of_forall allows_true _ _
  obtain ⟨gs, -, hJ⟩ := run_kept hstart
    (fun label g e input s gs i _ howes hi hJ => apply_recorded hi hJ howes) hfresh hall
  refine ⟨fun id => ?_, hJ.justified⟩
  by_cases hid : id < gs.length
  · have hget := List.getElem?_eq_getElem hid
    have hlabel := hJ.ids id _ hget
    have hcount := hJ.forwards _ (List.mem_of_getElem? hget)
    rw [hlabel] at hcount
    rw [hcount]
    split
    · exact le_refl 1
    · exact Nat.zero_le 1
  · rw [forwardsOf_eq_nil hJ.labels (by rw [← hJ.count]; omega)]
    exact Nat.zero_le 1

end

/-! ## A request that is forwarded -/

open Addresses

theorem keepsRelayRequests_of {ν : Type} {net : Network ν} (h : WireFaithful net) :
    KeepsRelayRequests net := by
  intro u v m m' hm
  rw [transmit_some h hm, Message.onWire]
  cases m.payload <;> rfl

def Op.outgoing : Op → Option Outgoing
  | .send out => some out
  | _ => none

theorem op_of_outgoing {e : Op} {out : Outgoing} (h : Op.outgoing e = some out) : e = .send out := by
  cases e with
  | send out' => rw [Option.some.inj h]
  | _ => cases h

def threeHistory : List (Event (Fin 3)) :=
  (run (three false).system.step (Network.fresh (threeNodes false)) relayRun).state.trace

/-- The request of the first node goes to the third. -/
def forwardedFind : Outgoing := ⟨.forwarded, [addrOf (Fin.last 2)], first false find4⟩

theorem relay_never_chains_three :
    (forwardsOf 6 threeHistory).length = 1 ∧ ∃ e, threeHistory[37]? = some e ∧
      e.op = .send forwardedFind ∧
      Justified (three false) (threeHistory.take 37) e.label forwardedFind := by
  have hsent : threeHistory[37]?.bind (fun e => Op.outgoing e.op) = some forwardedFind := by
    decide +kernel
  obtain ⟨e, he, hout⟩ := Option.bind_eq_some_iff.mp hsent
  have hop := op_of_outgoing hout
  refine ⟨by decide +kernel, e, he, hop, ?_⟩
  rw [threeHistory] at he ⊢
  exact (relay_never_chains (keepsRelayRequests_of (three_wireFaithful false)) (threeNodes false)
    relayRun).2 37 e forwardedFind he hop rfl

end TesserasDht.Relay
