import TesserasDht.Code.Network

/-!
# What the tasks of a node rely on

A task inserts peers that it was told about, and sends requests whose answers it believes. A `Trust`
says which peers and answers these are. The lemmas say, task by task, what the task does as long as
its answers are of that kind.
-/

open Lib.Tasks

namespace TesserasDht.Conduct

/-- Which peers may be stored, which requests and responses may be sent, and which answers come. -/
structure Trust where
  Good : NodeInfo → Prop
  Sends : Outgoing → Prop
  Reply : Outgoing → Message → Prop
  Responds : Message → Prop

/-- A node that may be stored, in the form in which it is sent or saved. -/
def Listed (Good : NodeInfo → Prop) (p : NodeInfoSerde) : Prop := ∃ node, Good node ∧ p = node.toSerde

/-- The requests of a task by their number. -/
abbrev Requests := Nat → Option Outgoing

/-- Requests that were sent stay sent. -/
def Extends (g g' : Requests) : Prop := ∀ n out, g n = some out → g' n = some out

theorem Extends.refl (g : Requests) : Extends g g := fun _ _ h => h

theorem Extends.trans {g g' g'' : Requests} (h : Extends g g') (h' : Extends g' g'') :
    Extends g g'' := fun n out hn => h' n out (h n out hn)

def Trust.contract (T : Trust) : Contract Requests Op Op.Result where
  owes _ e := match e with
    | .insert node => T.Good node
    | .evictAndInsert _ node => T.Good node
    | .send out => T.Sends out
    | .sendResponse _ msg => T.Responds msg
    | .savePeersBatch peers => ∀ p ∈ peers, Listed T.Good p
    | _ => True
  gets g e := match e with
    | .closestNodes _ _ => fun (nodes : List NodeInfo) => ∀ n ∈ nodes, T.Good n
    | .allNodesSerde => fun (peers : List NodeInfoSerde) => ∀ p ∈ peers, Listed T.Good p
    | .send _ => fun (request : Nat) => g request = none
    | .await request => fun (answer : Option Message) =>
      ∀ out ∈ g request, ∀ msg ∈ answer, T.Reply out msg
    | _ => fun _ => True
  next g e := match e with
    | .send out => fun (request : Nat) => Function.update g request (some out)
    | _ => fun _ => g

/-- What a task does, from the requests `g` on, and what it has at the end. -/
abbrev Does {α : Type} (T : Trust) (g : Requests) (t : NodeTask α) (Q : Requests → α → Prop) : Prop :=
  Keeps T.contract Q g t

variable {T : Trust} {α β : Type}

theorem extends_update {g : Requests} {request : Nat} (h : g request = none) (out : Outgoing) :
    Extends g (Function.update g request (some out)) := by
  intro n out' hn
  by_cases hne : n = request
  · subst hne
    rw [h] at hn
    cases hn
  · rw [Function.update_of_ne hne]
    exact hn

/-! ## Messages of the node -/

/-- The message is the node's own. -/
structure Own (ctx : HandlerContext) (payload : Payload) (msg : Message) : Prop where
  senderId : msg.senderId = ctx.nodeId.asBytes
  senderKey : msg.senderKey = ctx.publicKey
  payload : msg.payload = payload

theorem sign_fields (crates : Crates) (secret : Bytes32) (m : Message) :
    (m.sign crates secret).senderId = m.senderId ∧ (m.sign crates secret).senderKey = m.senderKey ∧
      (m.sign crates secret).payload = m.payload ∧
      (m.sign crates secret).clientMode = m.clientMode := by
  unfold Message.sign
  split <;> exact ⟨rfl, rfl, rfl, rfl⟩

section

variable (ctx : HandlerContext)

theorem ownMessage_does (clientMode : Bool) (payload : Payload) (g : Requests) :
    Does T g (ctx.ownMessage clientMode payload) fun g' msg => g' = g ∧ Own ctx payload msg := by
  refine ⟨trivial, fun msgId _ => ⟨rfl, ?_⟩⟩
  obtain ⟨hid, hkey, hpayload, -⟩ := sign_fields ctx.crates ctx.secret
    { Message.new msgId ctx.nodeId.asBytes ctx.publicKey ctx.pow payload with clientMode }
  exact ⟨hid, hkey, hpayload⟩

/-- An answer is one that the trust allows for the request. -/
theorem sendRequestAny_does {origin : Origin} {addrs : List SocketAddr} {msg : Message}
    (hsend : T.Sends ⟨origin, addrs, msg⟩) (g : Requests) :
    Does T g (sendRequestAny origin addrs msg) fun g' r =>
      Extends g g' ∧ ∀ resp ∈ r, T.Reply ⟨origin, addrs, msg⟩ resp := by
  unfold sendRequestAny
  split
  · exact ⟨.refl g, by rintro _ ⟨⟩⟩
  · refine ⟨hsend, fun request hfresh => ⟨trivial, fun answer hreply => ⟨?_, ?_⟩⟩⟩
    · exact extends_update hfresh _
    · exact hreply _ (Function.update_self request _ g)

variable (hown : ∀ payload addrs msg, Own ctx payload msg → T.Sends ⟨.own, addrs, msg⟩)

include hown

/-! ## Relays -/

/-- A relay brought the message back from the target. -/
def Relayed (T : Trust) (ctx : HandlerContext) (target : NodeId) (inner : Bytes) (msg : Message) : Prop :=
  ∃ out resp bytes, out.origin = .own ∧ Own ctx (.relayRequest target.asBytes inner 0) out.msg ∧
    T.Reply out resp ∧ resp.payload = .relayResponse true bytes ∧
    ctx.crates.fromBytes bytes = some msg

theorem askRelay_does (target : NodeId) (inner : Bytes) (candidate : NodeInfo) (g : Requests) :
    Does T g (ctx.askRelay target inner candidate) fun g' r => Extends g g' ∧
      ∀ bytes ∈ r, ∀ msg, ctx.crates.fromBytes bytes = some msg → Relayed T ctx target inner msg := by
  unfold HandlerContext.askRelay HandlerContext.newMessage
  apply (ownMessage_does ctx _ _ g).bind
  rintro g' msg ⟨rfl, hmsg⟩
  apply (sendRequestAny_does (hown _ _ _ hmsg) g').bind
  rintro g'' r ⟨hext, hreply⟩
  cases r with
  | none => exact ⟨hext, by rintro _ ⟨⟩⟩
  | some resp =>
    dsimp only
    split
    next bytes hpayload =>
      refine ⟨hext, ?_⟩
      rintro _ ⟨⟩ inner' hinner
      exact ⟨_, resp, bytes, rfl, hmsg, hreply resp rfl, hpayload, hinner⟩
    next => exact ⟨hext, by rintro _ ⟨⟩⟩

theorem queryRelays_does (target : NodeId) (inner : Bytes) (candidates : List NodeInfo)
    (g : Requests) :
    Does T g (ctx.queryRelays target inner candidates) fun g' r => Extends g g' ∧
      ∀ msg ∈ r, Relayed T ctx target inner msg := by
  induction candidates generalizing g with
  | nil => exact ⟨.refl g, by rintro _ ⟨⟩⟩
  | cons candidate rest ih =>
    unfold HandlerContext.queryRelays
    split
    · apply (askRelay_does ctx hown target inner candidate g).bind
      rintro g' r ⟨hext, hrelay⟩
      have hrest := (ih g').mono fun g'' r h => (⟨hext.trans h.1, h.2⟩ : Extends g g'' ∧ _)
      cases r with
      | none => exact hrest
      | some bytes =>
        dsimp only
        split
        next msg hmsg =>
          refine ⟨hext, ?_⟩
          rintro _ ⟨⟩
          exact hrelay bytes rfl msg hmsg
        next => exact hrest
    · exact ih g

theorem sendViaRelays_does (target : NodeId) (inner : Bytes) (candidates : List NodeInfo)
    (g : Requests) :
    Does T g (ctx.sendViaRelays target inner candidates) fun g' _ => Extends g g' := by
  induction candidates generalizing g with
  | nil => exact .refl g
  | cons candidate rest ih =>
    unfold HandlerContext.sendViaRelays
    split
    · apply (askRelay_does ctx hown target inner candidate g).bind
      rintro g' r ⟨hext, -⟩
      cases r with
      | none => exact (ih g').mono fun g'' _ h => hext.trans h
      | some bytes => exact hext
    · exact ih g

theorem sendViaRelay_does (target : NodeId) (msg : Message) (g : Requests) :
    Does T g (ctx.sendViaRelay target msg) fun g' _ => Extends g g' := by
  refine ⟨trivial, fun candidates _ => ?_⟩
  cases ctx.crates.toBytes msg with
  | none => exact .refl g
  | some inner => exact sendViaRelays_does ctx hown target inner candidates g

theorem connectViaRelays_does (target : NodeId) (inner : Bytes) (candidates : List NodeInfo)
    (g : Requests) :
    Does T g (ctx.connectViaRelays target inner candidates) fun g' _ => Extends g g' := by
  induction candidates generalizing g with
  | nil => exact .refl g
  | cons candidate rest ih =>
    unfold HandlerContext.connectViaRelays
    split
    · apply (askRelay_does ctx hown target inner candidate g).bind
      rintro g' r ⟨hext, -⟩
      have hrest := (ih g').mono fun g'' _ h => hext.trans h
      cases r with
      | none => exact hrest
      | some bytes =>
        dsimp only
        split
        · exact hext
        · exact hrest
    · exact ih g

theorem requestReverseConnection_does (target : NodeId) (g : Requests) :
    Does T g (ctx.requestReverseConnection target) fun g' _ => Extends g g' := by
  refine ⟨trivial, fun external _ => ?_⟩
  apply (ownMessage_does ctx _ _ g).bind
  rintro g' msg ⟨rfl, -⟩
  cases ctx.crates.toBytes msg with
  | none => exact .refl g'
  | some inner => exact ⟨trivial, fun candidates _ => connectViaRelays_does ctx hown target inner candidates g'⟩

theorem sendWithNatTraversal_does {payload : Payload} {msg : Message} (hmsg : Own ctx payload msg)
    (addrs : List SocketAddr) (target : NodeId) (g : Requests) :
    Does T g (ctx.sendWithNatTraversal addrs target msg) fun g' _ => Extends g g' := by
  apply (sendRequestAny_does (hown _ _ _ hmsg) g).bind
  rintro g₁ r ⟨hext, -⟩
  have hrelay (g' : Requests) (h : Extends g g') :
      Does T g' (ctx.sendViaRelay target msg) fun g'' _ => Extends g g'' :=
    (sendViaRelay_does ctx hown target msg g').mono fun g'' _ h' => h.trans h'
  cases r with
  | some resp => exact hext
  | none =>
    apply (requestReverseConnection_does ctx hown target g₁).bind
    intro g₂ connected hext₂
    split
    · apply (sendRequestAny_does (hown _ _ _ hmsg) g₂).bind
      rintro g₃ r ⟨hext₃, -⟩
      cases r with
      | some resp => exact (hext.trans hext₂).trans hext₃
      | none => exact hrelay g₃ ((hext.trans hext₂).trans hext₃)
    · exact hrelay g₂ (hext.trans hext₂)

/-! ## Lookups and bootstrap -/

/-- The sender of the message may be stored with the addresses. -/
def SenderGood (T : Trust) (addrs : List SocketAddr) (msg : Message) : Prop :=
  ∀ now, T.Good (NodeInfo.new now (NodeId.fromBytes msg.senderId) msg.senderKey addrs)

/-- The nodes that the message names may be stored. -/
def NodesGood (T : Trust) (msg : Message) : Prop :=
  ∀ nodes, msg.payload = .findNodeResponse nodes → ∀ n ∈ nodes, ∀ now, T.Good (n.toInfo now)

/-- The message answers a request of the node that went to the addresses. -/
def Replies (T : Trust) (ctx : HandlerContext) (payload : Payload) (addrs : List SocketAddr)
    (msg : Message) : Prop :=
  ∃ own, Own ctx payload own ∧ T.Reply ⟨.own, addrs, own⟩ msg

/-- The message answers a query, directly or through a relay. -/
def Answers (T : Trust) (ctx : HandlerContext) (target peerId : NodeId) (addrs : List SocketAddr)
    (msg : Message) : Prop :=
  Replies T ctx (.findNodeRequest target.asBytes) addrs msg ∨ ∃ inner, Relayed T ctx peerId inner msg

omit hown in
theorem insertAll_does {nodes : List NodeInfo} (h : ∀ n ∈ nodes, T.Good n) (g : Requests) :
    Does T g (HandlerContext.insertAll nodes) fun g' _ => g' = g := by
  induction nodes with
  | nil => exact rfl
  | cons node rest ih =>
    refine ⟨h node List.mem_cons_self, fun r _ => ?_⟩
    cases r with
    | error e => exact rfl
    | ok r => exact ih fun n hn => h n (List.mem_cons_of_mem _ hn)

theorem queryResponse_does (target peerId : NodeId) (addrs : List SocketAddr) (g : Requests) :
    Does T g (ctx.queryResponse target peerId addrs) fun _ r =>
      ∀ msg ∈ r, Answers T ctx target peerId addrs msg := by
  apply (ownMessage_does ctx _ _ g).bind
  rintro g' msg ⟨rfl, hmsg⟩
  apply (sendRequestAny_does (hown _ _ _ hmsg) g').bind
  rintro g'' r ⟨-, hreply⟩
  cases r with
  | some resp =>
    rintro _ ⟨⟩
    exact Or.inl ⟨msg, hmsg, hreply resp rfl⟩
  | none =>
    refine ⟨trivial, fun candidates _ => ?_⟩
    cases ctx.crates.toBytes msg with
    | none => rintro _ ⟨⟩
    | some inner =>
      exact (queryRelays_does ctx hown peerId inner candidates g'').mono
        fun _ r h msg hm => Or.inr ⟨inner, h.2 msg hm⟩

theorem queryPeer_does (target peerId : NodeId) (addrs : List SocketAddr)
    (hanswer : ∀ msg, Answers T ctx target peerId addrs msg →
      SenderGood T addrs msg ∧ NodesGood T msg) (g : Requests) :
    Does T g (ctx.queryPeer target peerId addrs) fun _ _ => True := by
  apply (queryResponse_does ctx hown target peerId addrs g).bind
  intro g' r hr
  cases r with
  | none => exact ⟨trivial, fun _ _ => trivial⟩
  | some resp =>
    obtain ⟨hsender, hnodes⟩ := hanswer resp (hr resp rfl)
    refine ⟨trivial, fun now _ => ⟨hsender now, fun r _ => ?_⟩⟩
    cases r with
    | error e => exact trivial
    | ok r =>
      dsimp only
      split
      next nodes hpayload =>
        apply (insertAll_does (g := g') ?_).bind
        · intro g'' r _
          cases r with
          | error e => exact trivial
          | ok u => exact trivial
        · intro n hn
          obtain ⟨n', hn', rfl⟩ := List.mem_map.mp hn
          exact hnodes nodes hpayload n' hn' now
      next => exact trivial

theorem sendEach_does (payload : Payload) (addrs : List SocketAddr) (g : Requests) :
    Does T g (ctx.sendEach payload addrs) fun g' sent => Extends g g' ∧
      ∀ r ∈ sent, ∃ own, Own ctx payload own ∧ g' r.2 = some ⟨.own, [r.1], own⟩ := by
  induction addrs generalizing g with
  | nil => exact ⟨.refl g, by rintro _ ⟨⟩⟩
  | cons addr rest ih =>
    apply (ownMessage_does ctx _ _ g).bind
    rintro g' msg ⟨rfl, hmsg⟩
    refine ⟨hown _ _ _ hmsg, fun request hfresh => ?_⟩
    apply (ih _).bind
    rintro g'' sent ⟨hext, hsent⟩
    refine ⟨(extends_update hfresh _).trans hext, ?_⟩
    intro r hr
    rcases List.mem_cons.mp hr with rfl | hr
    · exact ⟨msg, hmsg, hext _ _ (Function.update_self request _ g')⟩
    · exact hsent r hr

omit hown in
theorem awaitEach_does {payload : Payload} (g : Requests) (sent : List (SocketAddr × Nat))
    (hsent : ∀ r ∈ sent, ∃ own, Own ctx payload own ∧ g r.2 = some ⟨.own, [r.1], own⟩) :
    Does T g (HandlerContext.awaitEach sent) fun _ results =>
      ∀ r ∈ results, ∀ msg ∈ r.2, Replies T ctx payload [r.1] msg := by
  induction sent with
  | nil => rintro _ ⟨⟩
  | cons r rest ih =>
    refine ⟨trivial, fun answer hreply => ?_⟩
    apply (ih fun r hr => hsent r (List.mem_cons_of_mem _ hr)).bind
    intro g' results hresults r' hr'
    rcases List.mem_cons.mp hr' with rfl | hr'
    · intro msg hmsg
      obtain ⟨own, hown, hg⟩ := hsent r List.mem_cons_self
      exact ⟨own, hown, hreply _ hg msg hmsg⟩
    · exact hresults r' hr'

omit hown in
theorem greetEach_does (g : Requests) (results : List (SocketAddr × Option Message))
    (hresults : ∀ r ∈ results, ∀ msg ∈ r.2, SenderGood T [r.1] msg) :
    Does T g (ctx.greetEach results) fun _ _ => True := by
  induction results with
  | nil => exact trivial
  | cons r rest ih =>
    have hrest := ih fun r hr => hresults r (List.mem_cons_of_mem _ hr)
    obtain ⟨addr, resp⟩ := r
    cases resp with
    | none => exact ⟨trivial, fun _ _ => hrest⟩
    | some resp =>
      have hsender := hresults _ List.mem_cons_self resp rfl
      unfold HandlerContext.greetEach
      dsimp only
      split
      · refine ⟨trivial, fun _ _ => ⟨trivial, fun now _ => ⟨hsender now, fun r _ => ?_⟩⟩⟩
        cases r with
        | error e => exact trivial
        | ok r => exact hrest
      · refine ⟨trivial, fun now _ => ⟨hsender now, fun r _ => ?_⟩⟩
        cases r with
        | error e => exact trivial
        | ok r => exact hrest

omit hown in
theorem insertFound_does (g : Requests) (results : List (SocketAddr × Option Message))
    (hresults : ∀ r ∈ results, ∀ msg ∈ r.2, NodesGood T msg) :
    Does T g (HandlerContext.insertFound results) fun _ _ => True := by
  induction results generalizing g with
  | nil => exact trivial
  | cons r rest ih =>
    have hrest g := ih g fun r hr => hresults r (List.mem_cons_of_mem _ hr)
    obtain ⟨addr, resp⟩ := r
    unfold HandlerContext.insertFound
    split
    next nodes hnodes =>
      obtain ⟨resp', rfl, hpayload⟩ := Option.map_eq_some_iff.mp hnodes
      refine ⟨trivial, fun now _ => ?_⟩
      apply (insertAll_does (g := g) ?_).bind
      · intro g' r _
        cases r with
        | error e => exact trivial
        | ok u => exact hrest g'
      · intro n hn
        obtain ⟨n', hn', rfl⟩ := List.mem_map.mp hn
        exact hresults _ List.mem_cons_self resp' rfl nodes hpayload n' hn' now
    next => exact hrest g

theorem doBootstrap_does
    (hping : ∀ addr msg, Replies T ctx .pingRequest [addr] msg → SenderGood T [addr] msg)
    (hfind : ∀ addr msg, Replies T ctx (.findNodeRequest ctx.nodeId.asBytes) [addr] msg →
      NodesGood T msg)
    (addrs : List SocketAddr) (g : Requests) :
    Does T g (ctx.doBootstrap addrs) fun _ _ => True := by
  apply (sendEach_does ctx hown _ addrs g).bind
  rintro g₁ sent ⟨-, hsent⟩
  apply (awaitEach_does ctx g₁ sent hsent).bind
  intro g₂ results hresults
  apply (greetEach_does ctx g₂ results fun r hr msg hm => hping _ _ (hresults r hr msg hm)).bind
  intro g₃ r _
  cases r with
  | error e => exact trivial
  | ok u =>
    dsimp only
    split
    · apply (sendEach_does ctx hown _ _ g₃).bind
      rintro g₄ asked ⟨-, hasked⟩
      apply (awaitEach_does ctx g₄ asked hasked).bind
      intro g₅ found hfound
      apply (insertFound_does g₅ found fun r hr msg hm => hfind _ _ (hfound r hr msg hm)).bind
      intro _ _ _
      exact trivial
    · exact trivial

/-! ## Replication and periodic tasks -/

omit hown in
theorem keysToReplicate_does (node : NodeInfo) (keys : List Hash) (g : Requests) :
    Does T g (ctx.keysToReplicate node keys) fun _ _ => True := by
  induction keys with
  | nil => exact trivial
  | cons key rest ih => exact ⟨trivial, fun closest _ => ih.bind fun _ _ _ => trivial⟩

theorem replicateChunks_does (node : NodeInfo) (keys : List Hash) (g : Requests) :
    Does T g (ctx.replicateChunks node keys) fun _ _ => True := by
  induction keys generalizing g with
  | nil => exact trivial
  | cons key rest ih =>
    unfold HandlerContext.replicateChunks HandlerContext.newMessage
    refine Keeps.perform trivial fun r _ => ?_
    split
    · apply (ownMessage_does ctx _ _ g).bind
      rintro g' msg ⟨rfl, hmsg⟩
      exact ⟨hown _ _ _ hmsg, fun request _ => ih _⟩
    · exact ih g

theorem replicateChunksToNode_does (node : NodeInfo) (g : Requests) :
    Does T g (ctx.replicateChunksToNode node) fun _ _ => True := by
  unfold HandlerContext.replicateChunksToNode
  split
  · exact trivial
  · refine ⟨trivial, fun keys _ => ?_⟩
    cases keys with
    | none => exact trivial
    | some keys =>
      exact (keysToReplicate_does ctx node keys g).bind
        fun g' keys _ => replicateChunks_does ctx hown node keys g'

omit hown in
theorem saveRoutingTable_does (g : Requests) :
    Does T g HandlerContext.saveRoutingTable fun _ _ => True :=
  ⟨trivial, fun _ hpeers => ⟨hpeers, fun _ _ => trivial⟩⟩

omit hown in
theorem cleanupTick_does (g : Requests) : Does T g HandlerContext.cleanupTick fun _ _ => True :=
  ⟨trivial, fun _ _ => ⟨trivial, fun _ _ => ⟨trivial, fun _ _ => trivial⟩⟩⟩

/-! ## Handlers -/

theorem evictUnresponsive_does (lrs : NodeId) {node : NodeInfo} (hnode : T.Good node) (g : Requests) :
    Does T g (ctx.evictUnresponsive lrs node) fun _ _ => True := by
  unfold HandlerContext.evictUnresponsive
  refine Keeps.perform trivial fun closest _ => ?_
  split
  · exact trivial
  · apply (ownMessage_does ctx _ _ g).bind
    rintro g' ping ⟨rfl, hping⟩
    apply (sendRequestAny_does (hown _ _ _ hping) g').bind
    intro g'' r _
    cases r with
    | some _ => exact trivial
    | none => exact ⟨hnode, fun _ _ => trivial⟩

theorem insertSender_does {fromAddr : SocketAddr} {msg : Message}
    (hsender : SenderGood T [fromAddr] msg) (g : Requests) :
    Does T g (ctx.insertSender fromAddr msg) fun _ _ => True := by
  unfold HandlerContext.insertSender
  refine Keeps.perform trivial fun now _ => Keeps.perform (hsender now) fun r _ => ?_
  split
  · exact trivial
  · split
    · exact ⟨trivial, fun _ _ => trivial⟩
    · exact trivial
  · exact (evictUnresponsive_does ctx hown _ (hsender now) g).bind fun _ _ _ => trivial
  · exact trivial

theorem connectBack_does (addrs : List SocketAddr) (g : Requests) :
    Does T g (ctx.connectBack addrs) fun _ _ => True := by
  induction addrs generalizing g with
  | nil => exact trivial
  | cons addr rest ih =>
    apply (ownMessage_does ctx _ _ g).bind
    rintro g' ping ⟨rfl, hping⟩
    apply (sendRequestAny_does (hown _ _ _ hping) g').bind
    intro g'' r _
    cases r with
    | some _ => exact trivial
    | none => exact ih g''

omit hown in
theorem putChunk_does (fromAddr : SocketAddr) (sender : Bytes32) (hash : Hash) (data : Bytes)
    (g : Requests) :
    Does T g (ctx.putChunk fromAddr sender hash data) fun _ p => ∃ ok, p = .putChunkResponse ok := by
  unfold HandlerContext.putChunk
  refine Keeps.perform trivial fun checked _ => ?_
  split
  · refine Keeps.perform trivial fun reserved _ => ?_
    split
    · refine Keeps.perform trivial fun stored _ => ?_
      cases stored with
      | ok u => exact ⟨_, rfl⟩
      | error e => exact ⟨trivial, fun _ _ => ⟨_, rfl⟩⟩
    · exact ⟨_, rfl⟩
  · exact ⟨_, rfl⟩

/-- What the relay sends on for the message: the inner message, to the target as it knows it. -/
structure Forwards (T : Trust) (msg : Message) (out : Outgoing) : Prop where
  origin : out.origin = .forwarded
  target : ∃ targetId payload hops node, msg.payload = .relayRequest targetId payload hops ∧
    T.Good node ∧ node.nodeId = NodeId.fromBytes targetId ∧ out.addrs = node.addresses

/-- The payload that answers the message. -/
def Spoken (T : Trust) (ctx : HandlerContext) (msg : Message) : Payload → Prop
  | .findNodeResponse nodes => ∀ p ∈ nodes, Listed T.Good p
  | .relayResponse true bytes => ∃ out resp, Forwards T msg out ∧ T.Reply out resp ∧
    ctx.crates.toBytes resp = some bytes
  | _ => True

section

variable (fromAddr : SocketAddr) (msg : Message)
  (hforward : ∀ out, Forwards T msg out → T.Sends out)

include hforward

omit hown in
theorem forward_does {targetId : Bytes32} {payload : Bytes} {hops : UInt8}
    (hmsg : msg.payload = .relayRequest targetId payload hops) (inner : Message) (g : Requests) :
    Does T g (ctx.forward targetId inner) fun _ p => Spoken T ctx msg p := by
  unfold HandlerContext.forward
  refine Keeps.perform trivial fun closest hgood => ?_
  split
  · exact trivial
  next node hfind =>
    have hnode : node.nodeId = NodeId.fromBytes targetId ∧ node.addresses ≠ [] := by
      simpa using List.find?_some hfind
    have hout : Forwards T msg ⟨.forwarded, node.addresses, inner⟩ :=
      ⟨rfl, targetId, payload, hops, node, hmsg, hgood node (List.mem_of_find?_eq_some hfind),
        hnode.1, rfl⟩
    apply (sendRequestAny_does (hforward _ hout) g).bind
    rintro g' r ⟨-, hreply⟩
    cases r with
    | none => exact trivial
    | some resp =>
      dsimp only
      split
      next bytes hbytes => exact ⟨_, resp, hout, hreply resp rfl, hbytes⟩
      next => exact trivial

omit hown in
theorem relay_does {targetId : Bytes32} {payload : Bytes} {hops : UInt8}
    (hmsg : msg.payload = .relayRequest targetId payload hops) (g : Requests) :
    Does T g (ctx.relay fromAddr targetId payload hops) fun _ p => Spoken T ctx msg p := by
  unfold HandlerContext.relay
  split_ifs
  · exact trivial
  · exact trivial
  · refine Keeps.perform trivial fun checked _ => ?_
    split
    · split
      · exact trivial
      next inner _ =>
        split_ifs
        · exact trivial
        · exact trivial
        · exact forward_does ctx msg hforward hmsg inner g
    · exact trivial

theorem respond_does (g : Requests) :
    Does T g (ctx.respond fromAddr msg) fun _ r => ∀ p ∈ r, Spoken T ctx msg p := by
  unfold HandlerContext.respond
  split
  · rintro _ ⟨⟩
    exact trivial
  · refine Keeps.perform trivial fun closest hgood => ?_
    rintro _ ⟨⟩ p hp
    obtain ⟨n, hn, rfl⟩ := List.mem_map.mp hp
    exact ⟨n, hgood n hn, rfl⟩
  · refine Keeps.perform trivial fun providers _ => Keeps.perform trivial fun closer _ => ?_
    rintro _ ⟨⟩
    exact trivial
  · refine Keeps.perform trivial fun r _ => ?_
    rintro _ ⟨⟩
    exact trivial
  · refine Keeps.perform trivial fun r _ => ?_
    split
    · rintro _ ⟨⟩
      exact trivial
    · rintro _ ⟨⟩
      exact trivial
  next hash data _ =>
    apply (putChunk_does ctx fromAddr msg.senderId hash data g).bind
    rintro g' _ ⟨ok, rfl⟩ _ ⟨⟩
    exact trivial
  next targetId payload hops hmsg =>
    apply (relay_does ctx fromAddr msg hforward hmsg g).bind
    rintro g' p hp _ ⟨⟩
    exact hp
  next addrs _ _ _ =>
    apply (connectBack_does ctx hown addrs g).bind
    rintro g' ok _ _ ⟨⟩
    exact trivial
  · rintro _ ⟨⟩

variable (hresponds : ∀ payload resp, Spoken T ctx msg payload → Own ctx payload resp →
  T.Responds resp)

include hresponds

theorem answer_does (g : Requests) : Does T g (ctx.answer fromAddr msg) fun _ _ => True := by
  apply (respond_does ctx hown fromAddr msg hforward g).bind
  intro g' r hr
  cases r with
  | none => exact trivial
  | some payload =>
    obtain ⟨hid, hkey, hpayload, -⟩ := sign_fields ctx.crates ctx.secret
      (msg.response ctx.nodeId.asBytes ctx.publicKey ctx.pow payload)
    exact ⟨hresponds payload _ (hr payload rfl) ⟨hid, hkey, hpayload⟩, fun _ _ => trivial⟩

theorem handleInboundMessage_does
    (hsender : ctx.rejection msg = none → msg.clientMode = false → SenderGood T [fromAddr] msg)
    (g : Requests) : Does T g (ctx.handleInboundMessage fromAddr msg) fun _ _ => True := by
  unfold HandlerContext.handleInboundMessage
  split
  · exact trivial
  next haccepted =>
    split
    · exact answer_does ctx hown fromAddr msg hforward hresponds g
    next hclient =>
      have hgood := hsender haccepted (Bool.not_eq_true _ ▸ hclient)
      apply (insertSender_does ctx hown hgood g).bind
      intro g' r _
      cases r with
      | error e => exact trivial
      | ok u => exact answer_does ctx hown fromAddr msg hforward hresponds g'

end

end

end TesserasDht.Conduct
