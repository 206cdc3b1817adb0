import TesserasDht.Code.Upkeep
import TesserasDht.Conduct
import TesserasDht.Watched

/-!
# Where provider records come from

A row of the provider table was there at the start, or the node wrote it for a chunk that it holds, or a peer
announced itself. What the node announces in its own name, it has stored.
-/

open Lib.Runs Lib.Tasks

namespace TesserasDht.ProviderOrigins

open Admission Routines Watched

/-! ## A node and its maintenance -/

/-- What begins. -/
inductive Begin
  | duty (duty : Duty)
  | maintain (lastMaintenanceTime : Nat)
  /-- A new process on the same tables and chunks. -/
  | restart (now : Nat)

inductive Work
  | duty (duty : Duty)
  | maintenance
  | restart

/-- The work that announces chunks of the node. -/
def Work.announces : Work → Bool
  | .duty (.store _ _) | .maintenance => true
  | _ => false

inductive Event
  /-- An inbound message, whether it is taken in or not. -/
  | came (fromAddr : SocketAddr) (msg : Message)
  /-- The chunk store took the chunk. -/
  | stored (hash : Hash)
  /-- A peer was told that the node has the chunk. -/
  | announced (key : Hash)

structure Upkept where
  node : NodeState
  log : List Event

/-- What an operation shows. -/
def events (work : Work) (e : UpkeepOp) : e.Result → List Event :=
  match e with
  | .node (.putChunk hash _) => fun (r : Outcome Unit) => match r with
    | .ok () => [.stored hash]
    | .error _ => []
  | .node (.send out) => fun _ => match work.announces, out.msg.payload with
    | true, .addProviderRequest key _ => [.announced key]
    | _, _ => []
  | _ => fun _ => []

/-- What is seen when a duty begins. -/
def arrival : Duty → List Event
  | .inbound fromAddr msg => [.came fromAddr msg]
  | _ => []

def keeping (ctx : HandlerContext) : System Upkept Work Input Begin UpkeepOp UpkeepOp.Result where
  apply work e input s :=
    let (r, node) := e.apply ctx.build ctx.crates.sha256 input s.node
    (r, ⟨node, s.log ++ events work e r⟩)
  start x s :=
    match x with
    | .duty duty => some (⟨s.node, s.log ++ arrival duty⟩, .duty duty, lift (ctx.perform duty))
    | .maintain last => some (s, .maintenance, do
      let _ ← ctx.doProviderMaintenance last
      pure ())
    | .restart now => some (⟨Network.restarted now ctx s.node, s.log⟩, .restart, pure ())

def idle (node : NodeState) : Pool Upkept Work UpkeepOp UpkeepOp.Result := ⟨⟨node, []⟩, []⟩

/-! ## Contracts -/

/-- The message is taken in, and announces its sender for the key. -/
structure Told (ctx : HandlerContext) (msg : Message) (key : Hash) (id : NodeId) (pk : Bytes32)
    (addresses : List SocketAddr) : Prop where
  accepted : ctx.rejection msg = none
  payload : msg.payload = .addProviderRequest key addresses
  nodeId : id = NodeId.fromBytes msg.senderId
  publicKey : pk = msg.senderKey

/-- The ghost state has the keys that the task may announce. -/
def contract (ctx : HandlerContext) (work : Work) : Contract (List Hash) Op Op.Result where
  owes known
    | .addProvider key id pk addresses _ =>
      (id = ctx.nodeId ∧ pk = ctx.publicKey ∧ key ∈ known) ∨
        ∃ fromAddr msg, work = .duty (.inbound fromAddr msg) ∧ Told ctx msg key id pk addresses
    | .send out => work.announces = true → ∀ key addresses, out.msg.payload = .addProviderRequest key addresses →
      key ∈ known
    | _ => True
  gets _ _ _ := True
  next known e := match e with
    | .putChunk hash _ => fun (r : Outcome Unit) => match r with
      | .ok () => hash :: known
      | .error _ => known
    | .getOwnProviders id => fun (r : Option (List Hash)) => if id = ctx.nodeId then r.getD [] ++ known else known
    | _ => fun _ => known

/-- The cleanup owes nothing. -/
def upkeepContract (ctx : HandlerContext) (work : Work) : Contract (List Hash) UpkeepOp UpkeepOp.Result where
  owes known
    | .node e => (contract ctx work).owes known e
    | .cleanupExpiredProviders => True
  gets _ _ _ := True
  next known e := match e with
    | .node e => fun r => (contract ctx work).next known e r
    | .cleanupExpiredProviders => fun _ => known

section

variable (ctx : HandlerContext) {work : Work} {known : List Hash} {α : Type}

theorem lift_keeps {Q : List Hash → α → Prop} {t : NodeTask α} (h : Keeps (contract ctx work) Q known t) :
    Keeps (upkeepContract ctx work) Q known (lift t) := by
  induction t generalizing known with
  | ret a => exact h
  | op e k ih => exact ⟨h.1, fun r _ => ih r (h.2 r trivial)⟩

/-- What is owed whatever the task knows. -/
theorem keeps_of_owes {P : Op → Prop} (hP : ∀ known e, P e → (contract ctx work).owes known e) {t : NodeTask α}
    (h : Performs P t) : Keeps (contract ctx work) (fun _ _ => True) known t := by
  induction t generalizing known with
  | ret a => exact trivial
  | op e k ih =>
    rw [performs_op] at h
    exact ⟨hP known e h.1, fun r _ => ih r (h.2 r)⟩

/-! ## Tasks that announce nothing -/

/-- The operation writes only the record that the message of the work announces. -/
def Quiet (work : Work) : Op → Prop
  | .addProvider key id pk addresses _ =>
    ∃ fromAddr msg, work = .duty (.inbound fromAddr msg) ∧ Told ctx msg key id pk addresses
  | _ => True

theorem quiet_keeps (hwork : work.announces = false) {t : NodeTask α} (h : Performs (Quiet ctx work) t) :
    Keeps (contract ctx work) (fun _ _ => True) known t := by
  refine keeps_of_owes ctx (fun known e he => ?_) h
  cases e with
  | addProvider => exact Or.inr he
  | send out =>
    intro hannounces
    rw [hwork] at hannounces
    cases hannounces
  | _ => exact trivial

theorem quiet_admits : Admits ctx (Quiet ctx work) where
  random := trivial
  send _ := trivial
  await _ := trivial
  closestNodes _ _ := trivial
  externalAddr := trivial
  now := trivial
  insert _ _ _ _ := trivial
  recordFailure _ := trivial
  recordFailureByAddr _ := trivial
  setExternalAddr _ := trivial
  evictAndInsert _ _ := trivial
  spawnReplicate _ := trivial

theorem respond_quiet (fromAddr : SocketAddr) {msg : Message} (haccepted : ctx.rejection msg = none) :
    Performs (Quiet ctx (.duty (.inbound fromAddr msg))) (ctx.respond fromAddr msg) := by
  unfold HandlerContext.respond
  split
  · exact performs_pure _
  · exact ⟨trivial, fun _ _ => performs_pure _⟩
  · exact ⟨trivial, fun _ _ => ⟨trivial, fun _ _ => performs_pure _⟩⟩
  next key addresses hmsg => exact ⟨⟨fromAddr, msg, rfl, haccepted, hmsg, rfl, rfl⟩, fun _ _ => performs_pure _⟩
  · refine Keeps.perform trivial fun r _ => ?_
    split
    · exact performs_pure _
    · exact performs_pure _
  next hash data hmsg =>
    refine ((putChunk_performs ctx fromAddr msg hash data hmsg).mono fun e he => ?_).bind fun _ => performs_pure _
    cases e with
    | addProvider =>
      obtain ⟨⟨addresses, hpayload⟩, -⟩ := he
      cases hmsg.symm.trans hpayload
    | _ => exact trivial
  · exact (relay_performs ctx (fun _ => trivial) (fun _ _ => trivial) (fun _ => trivial)
      (fun _ => trivial) _ _ _ _).bind fun _ => performs_pure _
  · exact (connectBack_performs ctx trivial (fun _ => trivial) (fun _ => trivial) _).bind
      fun _ => performs_pure _
  · exact performs_pure _

theorem handle_quiet (fromAddr : SocketAddr) (msg : Message) :
    Performs (Quiet ctx (.duty (.inbound fromAddr msg))) (ctx.handleInboundMessage fromAddr msg) := by
  unfold HandlerContext.handleInboundMessage
  split
  · exact performs_pure _
  next haccepted =>
    have hanswer : Performs (Quiet ctx (.duty (.inbound fromAddr msg))) (ctx.answer fromAddr msg) := by
      apply (respond_quiet ctx fromAddr haccepted).bind
      intro r
      cases r with
      | none => exact performs_pure _
      | some payload => exact ⟨trivial, fun _ _ => trivial⟩
    split
    · exact hanswer
    · apply (insertSender_performs ctx (quiet_admits ctx) fromAddr msg).bind
      intro r
      cases r with
      | error e => exact performs_pure _
      | ok u => exact hanswer

theorem replicate_quiet (newNode : NodeInfo) : Performs (Quiet ctx work) (ctx.replicateChunksToNode newNode) := by
  refine (replicateChunksToNode_performs ctx newNode).mono fun e he => ?_
  cases e with
  | addProvider => exact he.elim
  | _ => exact trivial

/-! ## Stores -/

theorem sendToPeers_keeps {payload : Payload}
    (hpayload : ∀ key addresses, payload = .addProviderRequest key addresses → key ∈ known) (peers : List NodeInfo) :
    Keeps (contract ctx work) (fun known' _ => known' = known) known (ctx.sendToPeers payload peers) := by
  refine (sendToPeers_sends ctx payload peers).keeps (fun e he => ?_) fun e r he => ?_
  · cases e with
    | random => exact trivial
    | send out =>
      rintro - key addresses hsent
      exact hpayload key addresses ((show out.msg.payload = payload from he).symm.trans hsent)
    | _ => exact he.elim
  · cases e with
    | random => rfl
    | send out => rfl
    | _ => exact he.elim

/-- Chunks that the store took may be announced. -/
theorem putEach_keeps (chunks : List (Hash × Bytes)) :
    Keeps (contract ctx work)
      (fun known' r => (∀ key ∈ known, key ∈ known') ∧ (r = .ok () → ∀ c ∈ chunks, c.1 ∈ known')) known
      (HandlerContext.putEach chunks) := by
  induction chunks generalizing known with
  | nil => exact ⟨fun _ h => h, fun _ c hc => absurd hc List.not_mem_nil⟩
  | cons chunk rest ih =>
    refine Keeps.perform trivial fun r _ => ?_
    rcases r with e | u
    · exact ⟨fun _ h => h, by rintro ⟨⟩⟩
    · refine ih.mono fun known' r hrest => ⟨fun key hkey => hrest.1 key (List.mem_cons_of_mem _ hkey), ?_⟩
      intro hok c hc
      rcases List.mem_cons.mp hc with rfl | hc
      · exact hrest.1 _ List.mem_cons_self
      · exact hrest.2 hok c hc

theorem distributeEach_keeps (announceAddr : SocketAddr) {chunks : List (Hash × Bytes)}
    (hchunks : ∀ c ∈ chunks, c.1 ∈ known) :
    Keeps (contract ctx work) (fun known' _ => known' = known) known (ctx.distributeEach announceAddr chunks) := by
  induction chunks with
  | nil => exact rfl
  | cons chunk rest ih =>
    obtain ⟨hchunk, hrest⟩ := List.forall_mem_cons.mp hchunks
    refine Keeps.perform trivial fun closest _ => ?_
    apply (sendToPeers_keeps ctx (by rintro _ _ ⟨⟩) _).bind
    rintro _ sent rfl
    refine Keeps.perform (Or.inl ⟨rfl, rfl, hchunk⟩) fun _ _ => ?_
    apply (ih hrest).bind
    rintro _ sent rfl
    exact rfl

theorem announceEach_keeps (announceAddr : SocketAddr) {chunks : List (Hash × Bytes)}
    (hchunks : ∀ c ∈ chunks, c.1 ∈ known) :
    Keeps (contract ctx work) (fun known' _ => known' = known) known (ctx.announceEach announceAddr chunks) := by
  induction chunks with
  | nil => exact rfl
  | cons chunk rest ih =>
    obtain ⟨hchunk, hrest⟩ := List.forall_mem_cons.mp hchunks
    refine Keeps.perform trivial fun closest _ => ?_
    apply (sendToPeers_keeps ctx ?_ _).bind
    · rintro _ sent rfl
      apply (ih hrest).bind
      rintro _ sent rfl
      exact rfl
    · rintro key addresses ⟨⟩
      exact hchunk

theorem distributeBlocks_keeps (announceAddr : SocketAddr) (blocks : List (List (Hash × Bytes))) :
    Keeps (contract ctx work) (fun _ _ => True) known (ctx.distributeBlocks announceAddr blocks) := by
  induction blocks generalizing known with
  | nil => exact trivial
  | cons chunks rest ih =>
    apply (putEach_keeps ctx chunks).bind
    rintro known₁ r ⟨-, hchunks⟩
    cases r with
    | error e => exact trivial
    | ok u =>
      apply (distributeEach_keeps ctx announceAddr (hchunks rfl)).bind
      rintro _ puts rfl
      apply (announceEach_keeps ctx announceAddr (hchunks rfl)).bind
      rintro _ announces rfl
      apply ih.bind
      intro _ r _
      cases r with
      | error e => exact trivial
      | ok sent => exact trivial

theorem awaits_keep (sent : List (NodeId × Nat)) :
    Keeps (contract ctx work) (fun known' _ => known' = known) known (HandlerContext.awaitPeers sent) := by
  induction sent with
  | nil => exact rfl
  | cons x rest ih =>
    refine Keeps.perform trivial fun resp _ => ?_
    apply ih.bind
    rintro _ resps rfl
    exact rfl

theorem settleEach_keeps (results : List (NodeId × Option Message)) :
    Keeps (contract ctx work) (fun known' _ => known' = known) known (ctx.settleEach results) := by
  induction results with
  | nil => exact rfl
  | cons x rest ih =>
    obtain ⟨peerId, resp⟩ := x
    cases resp with
    | some resp => exact ih
    | none => exact ⟨trivial, fun _ _ => ih⟩

theorem store_keeps (blocks : List (List (Hash × Bytes))) (manifest : Hash × Bytes) :
    Keeps (contract ctx work) (fun _ _ => True) known (ctx.distributeTessera blocks manifest) := by
  refine Keeps.perform trivial fun external _ => ?_
  apply (distributeBlocks_keeps ctx _ blocks).bind
  intro known₁ r _
  cases r with
  | error e => exact trivial
  | ok sent =>
    apply (awaits_keep ctx sent).bind
    rintro _ results rfl
    apply (settleEach_keeps ctx results).bind
    rintro _ _ rfl
    refine Keeps.perform trivial fun r _ => ?_
    rcases r with e | u
    · exact trivial
    · refine Keeps.perform trivial fun closest _ => ?_
      apply (sendToPeers_keeps ctx (by rintro _ _ ⟨⟩) _).bind
      rintro _ puts rfl
      apply (sendToPeers_keeps ctx ?_ _).bind
      · rintro _ announces rfl
        exact (awaits_keep ctx _).bind fun _ _ _ => trivial
      · rintro key addresses ⟨⟩
        exact List.mem_cons_self

/-! ## Maintenance -/

theorem reannounce_keeps (localAddr : SocketAddr) {keys : List Hash} (hkeys : ∀ key ∈ keys, key ∈ known) :
    Keeps (contract ctx work) (fun known' _ => known' = known) known (ctx.reannounce localAddr keys) := by
  induction keys with
  | nil => exact rfl
  | cons key rest ih =>
    obtain ⟨hkey, hrest⟩ := List.forall_mem_cons.mp hkeys
    refine Keeps.perform (Or.inl ⟨rfl, rfl, hkey⟩) fun _ _ => ?_
    refine Keeps.perform trivial fun closest _ => ?_
    apply (sendToPeers_keeps ctx ?_ _).bind
    · rintro _ sent rfl
      exact ih hrest
    · rintro key addresses ⟨⟩
      exact hkey

theorem replicateToNew_keeps (lastMaintenanceTime : Nat) (keys : List Hash) :
    Keeps (contract ctx work) (fun known' _ => known' = known) known
      (ctx.replicateToNew lastMaintenanceTime keys) := by
  induction keys with
  | nil => exact rfl
  | cons key rest ih =>
    unfold HandlerContext.replicateToNew
    refine Keeps.perform trivial fun closest _ => ?_
    dsimp only
    split
    · exact ih
    · refine Keeps.perform trivial fun r _ => ?_
      rcases r with _ | _ | data
      · exact ih
      · exact ih
      · apply (sendToPeers_keeps ctx (by rintro _ _ ⟨⟩) _).bind
        rintro _ sent rfl
        exact ih

theorem republish_keeps (lastMaintenanceTime : Nat) :
    Keeps (contract ctx work) (fun _ _ => True) known (ctx.republish lastMaintenanceTime) := by
  refine Keeps.perform trivial fun r _ => ?_
  rcases r with _ | _ | ⟨key, rest⟩
  · exact trivial
  · exact trivial
  · refine Keeps.perform trivial fun external _ => ?_
    apply (reannounce_keeps ctx _ ?_).bind
    · rintro _ _ rfl
      split
      · apply (replicateToNew_keeps ctx lastMaintenanceTime _).bind
        rintro _ _ rfl
        exact ⟨trivial, fun _ _ => trivial⟩
      · exact ⟨trivial, fun _ _ => trivial⟩
    · intro key' hkey'
      change key' ∈ if ctx.nodeId = ctx.nodeId then _ else _
      rw [if_pos rfl]
      exact List.mem_append_left _ hkey'

theorem perform_keeps (duty : Duty) :
    Keeps (contract ctx (.duty duty)) (fun _ _ => True) known (ctx.perform duty) := by
  have hgreets : Greets ctx (Quiet ctx (.duty duty)) := (quiet_admits ctx).toGreets
  cases duty with
  | inbound fromAddr msg => exact quiet_keeps ctx rfl (handle_quiet ctx fromAddr msg)
  | replicate newNode => exact quiet_keeps ctx rfl (replicate_quiet ctx newNode)
  | query target peerId addrs =>
    exact quiet_keeps ctx rfl ((queryPeer_performs ctx hgreets target peerId addrs).bind fun _ => performs_pure _)
  | bootstrap addrs => exact quiet_keeps ctx rfl (doBootstrap_performs ctx hgreets addrs)
  | getProviders key =>
    exact quiet_keeps ctx rfl ((doGetProviders_performs ctx hgreets (fun _ => trivial) key).bind
      fun _ => performs_pure _)
  | store blocks manifest => exact store_keeps ctx blocks manifest
  | request addrs target payload =>
    apply quiet_keeps ctx rfl
    apply (newMessage_performs ctx hgreets.toTalks payload).bind
    intro msg
    exact (sendWithNatTraversal_performs ctx hgreets.toTalks addrs target msg).bind fun _ => performs_pure _
  | save => exact ⟨trivial, fun _ _ => ⟨trivial, fun _ _ => trivial⟩⟩
  | cleanup => exact ⟨trivial, fun _ _ => ⟨trivial, fun _ _ => ⟨trivial, fun _ _ => trivial⟩⟩⟩

theorem maintenance_keeps (lastMaintenanceTime : Nat) :
    Keeps (upkeepContract ctx work) (fun _ _ => True) known (ctx.doProviderMaintenance lastMaintenanceTime) :=
  ⟨trivial, fun _ _ => lift_keeps ctx (republish_keeps ctx lastMaintenanceTime)⟩

end

/-! ## Origins -/

section

variable (ctx : HandlerContext) (initial : List ProviderRow) (log : List Event)

/-- The node took the chunk, had announced it before, or was told so by a message in its own name. -/
def OwnKey (key : Hash) : Prop :=
  .stored key ∈ log ∨ (∃ row ∈ initial, row.contentKey = key ∧ row.nodeId = ctx.nodeId) ∨
    ∃ fromAddr msg pk addresses, .came fromAddr msg ∈ log ∧ Told ctx msg key ctx.nodeId pk addresses

/-- Where the row comes from. -/
inductive Origin (row : ProviderRow) : Prop
  | initial (h : row ∈ initial)
  | own (hid : row.nodeId = ctx.nodeId) (hpk : row.publicKey = ctx.publicKey)
      (hkey : OwnKey ctx initial log row.contentKey)
  | told (fromAddr : SocketAddr) (msg : Message) (hcame : .came fromAddr msg ∈ log)
      (htold : Told ctx msg row.contentKey row.nodeId row.publicKey row.addresses)

end

section

variable {ctx : HandlerContext} {initial : List ProviderRow} {log new : List Event}

theorem OwnKey.append {key : Hash} (h : OwnKey ctx initial log key) : OwnKey ctx initial (log ++ new) key := by
  rcases h with hstored | hinitial | ⟨fromAddr, msg, pk, addresses, hcame, htold⟩
  · exact Or.inl (List.mem_append_left _ hstored)
  · exact Or.inr (Or.inl hinitial)
  · exact Or.inr (Or.inr ⟨fromAddr, msg, pk, addresses, List.mem_append_left _ hcame, htold⟩)

theorem Origin.append {row : ProviderRow} (h : Origin ctx initial log row) : Origin ctx initial (log ++ new) row := by
  cases h with
  | initial h => exact .initial h
  | own hid hpk hkey => exact .own hid hpk hkey.append
  | told fromAddr msg hcame htold => exact .told fromAddr msg (List.mem_append_left _ hcame) htold

/-- A row of the node itself has a key of the node. -/
theorem Origin.ownKey {row : ProviderRow} (h : Origin ctx initial log row) (hid : row.nodeId = ctx.nodeId) :
    OwnKey ctx initial log row.contentKey := by
  cases h with
  | initial h => exact Or.inr (Or.inl ⟨row, h, rfl, hid⟩)
  | own _ _ hkey => exact hkey
  | told fromAddr msg hcame htold =>
    rw [hid] at htold
    exact Or.inr (Or.inr ⟨fromAddr, msg, _, _, hcame, htold⟩)

/-- A new row is the one that the operation adds. -/
theorem apply_row {b : Build} {sha256 : Bytes → Hash} {e : UpkeepOp} {input : Input} {s : NodeState}
    {row : ProviderRow} (hrow : row ∈ (e.apply b sha256 input s).2.providers) :
    row ∈ s.providers ∨ ∃ ttl, e = .node (.addProvider row.contentKey row.nodeId row.publicKey row.addresses ttl) := by
  cases e with
  | cleanupExpiredProviders =>
    dsimp only [UpkeepOp.apply] at hrow
    split at hrow
    · exact Or.inl hrow
    · exact Or.inl (List.mem_filter.mp hrow).1
  | node e =>
    cases e with
    | addProvider key id pk addresses ttl =>
      dsimp only [UpkeepOp.apply, Op.apply] at hrow
      split at hrow
      · exact Or.inl hrow
      · split at hrow
        next providers hadd =>
          obtain ⟨expiresAt, -, hadd⟩ := bind_ok hadd
          cases hadd
          rcases List.mem_append.mp hrow with hold | hnew
          · exact Or.inl (List.mem_filter.mp hold).1
          · rw [List.mem_singleton.mp hnew]
            exact Or.inr ⟨ttl, rfl⟩
        · exact Or.inl hrow
    | insert node =>
      dsimp only [UpkeepOp.apply, Op.apply] at hrow
      split at hrow
      · exact Or.inl hrow
      · exact Or.inl hrow
    | savePeersBatch peers =>
      dsimp only [UpkeepOp.apply, Op.apply] at hrow
      split at hrow
      · exact Or.inl hrow
      · exact Or.inl hrow
    | _ => exact Or.inl hrow

end

/-! ## Runs -/

structure Grounded (ctx : HandlerContext) (initial : List ProviderRow) (s : Upkept) (gs : List (Work × List Hash)) :
    Prop where
  rows : ∀ row ∈ s.node.providers, Origin ctx initial s.log row
  announced : ∀ key, .announced key ∈ s.log → OwnKey ctx initial s.log key
  known : ∀ t ∈ gs, ∀ key ∈ t.2, OwnKey ctx initial s.log key
  came : ∀ t ∈ gs, ∀ fromAddr msg, t.1 = .duty (.inbound fromAddr msg) → .came fromAddr msg ∈ s.log

section

variable {ctx : HandlerContext} {initial : List ProviderRow} {s : Upkept} {gs : List (Work × List Hash)} {i : Nat}
  {work : Work} {known : List Hash} {e : UpkeepOp}

/-- What is announced now is a key that the task knows. -/
theorem events_announced (howes : (upkeepContract ctx work).owes known e) {r : e.Result} {key : Hash}
    (hmem : .announced key ∈ events work e r) : key ∈ known := by
  cases e with
  | cleanupExpiredProviders => cases hmem
  | node e =>
    cases e with
    | putChunk hash data =>
      have hput (r : Outcome Unit) (hmem : .announced key ∈ events work (.node (.putChunk hash data)) r) :
          key ∈ known := by
        rcases r with err | u
        · cases hmem
        · cases List.mem_singleton.mp hmem
      exact hput r hmem
    | send out =>
      dsimp only [events] at hmem
      split at hmem
      next key' addresses hannounces hpayload =>
        cases List.mem_singleton.mp hmem
        exact howes hannounces _ addresses hpayload
      · cases hmem
    | _ => cases hmem

theorem Grounded.row (h : Grounded ctx initial s gs) (hi : gs[i]? = some (work, known))
    (howes : (upkeepContract ctx work).owes known e) {input : Input} {row : ProviderRow}
    (hrow : row ∈ (e.apply ctx.build ctx.crates.sha256 input s.node).2.providers) : Origin ctx initial s.log row := by
  rcases apply_row hrow with hold | ⟨ttl, rfl⟩
  · exact h.rows row hold
  · rcases howes with ⟨hid, hpk, hkey⟩ | ⟨fromAddr, msg, hwork, htold⟩
    · exact .own hid hpk (h.known _ (List.mem_of_getElem? hi) _ hkey)
    · exact .told fromAddr msg (h.came _ (List.mem_of_getElem? hi) fromAddr msg hwork) htold

/-- A task learns the keys of chunks that it stored and of own rows. -/
theorem Grounded.learns (h : Grounded ctx initial s gs) (hi : gs[i]? = some (work, known)) {input : Input} {key : Hash}
    (hkey : key ∈ (upkeepContract ctx work).next known e ((keeping ctx).apply work e input s).1) :
    OwnKey ctx initial ((keeping ctx).apply work e input s).2.log key := by
  have hknown (hkey : key ∈ known) : OwnKey ctx initial ((keeping ctx).apply work e input s).2.log key :=
    (h.known _ (List.mem_of_getElem? hi) key hkey).append
  cases e with
  | cleanupExpiredProviders => exact hknown hkey
  | node e =>
    cases e with
    | putChunk hash data =>
      have hput (r : Outcome Unit)
          (hr : ((keeping ctx).apply work (.node (.putChunk hash data)) input s).1 = r) :
          OwnKey ctx initial ((keeping ctx).apply work (.node (.putChunk hash data)) input s).2.log key := by
        rw [hr] at hkey
        cases r with
        | error err => exact hknown hkey
        | ok u =>
          rcases List.mem_cons.mp hkey with rfl | hkey
          · refine Or.inl (List.mem_append_right _ ?_)
            change Event.stored key ∈ events work (.node (.putChunk key data))
              ((keeping ctx).apply work (.node (.putChunk key data)) input s).1
            rw [hr]
            exact List.mem_cons_self
          · exact hknown hkey
      exact hput _ rfl
    | getOwnProviders id =>
      have hkey : key ∈ if id = ctx.nodeId then
          (((keeping ctx).apply work (.node (.getOwnProviders id)) input s).1 : Option (List Hash)).getD [] ++ known
        else known := hkey
      split at hkey
      next hid =>
        rcases List.mem_append.mp hkey with hread | hkey
        · have hread : key ∈ (if input.metadataFails then none
            else some (TesserasDht.getOwnProviders input.seconds id s.node.providers)).getD [] := hread
          split at hread
          · cases hread
          · obtain ⟨row, hrow, rfl⟩ := List.mem_map.mp (List.mem_dedup.mp hread)
            obtain ⟨hrow, hown⟩ := List.mem_filter.mp hrow
            exact ((h.rows row hrow).ownKey ((of_decide_eq_true hown).1.trans hid)).append
        · exact hknown hkey
      · exact hknown hkey
    | _ => exact hknown hkey

theorem Grounded.apply (h : Grounded ctx initial s gs) (hi : gs[i]? = some (work, known))
    (howes : (upkeepContract ctx work).owes known e) (input : Input) :
    Grounded ctx initial ((keeping ctx).apply work e input s).2 (gs.set i (work,
      (upkeepContract ctx work).next known e ((keeping ctx).apply work e input s).1)) where
  rows row hrow := (h.row hi howes hrow).append
  announced key hkey := by
    rcases List.mem_append.mp hkey with hold | hnew
    · exact (h.announced key hold).append
    · exact (h.known _ (List.mem_of_getElem? hi) key (events_announced howes hnew)).append
  known t ht key hkey := by
    rcases List.mem_or_eq_of_mem_set ht with ht | rfl
    · exact (h.known t ht key hkey).append
    · exact h.learns hi hkey
  came t ht fromAddr msg hwork := by
    rcases List.mem_or_eq_of_mem_set ht with ht | rfl
    · exact List.mem_append_left _ (h.came t ht fromAddr msg hwork)
    · exact List.mem_append_left _ (h.came _ (List.mem_of_getElem? hi) fromAddr msg hwork)

/-- A task begins without keys. -/
theorem Grounded.more (h : Grounded ctx initial s gs) {node : NodeState} (hnode : node.providers = s.node.providers)
    {new : List Event} (hquiet : ∀ key, .announced key ∉ new)
    (hcame : ∀ fromAddr msg, work = .duty (.inbound fromAddr msg) → .came fromAddr msg ∈ new) :
    Grounded ctx initial ⟨node, s.log ++ new⟩ (gs ++ [(work, [])]) where
  rows row hrow := (h.rows row (hnode ▸ hrow)).append
  announced key hkey := by
    rcases List.mem_append.mp hkey with hold | hnew
    · exact (h.announced key hold).append
    · exact absurd hnew (hquiet key)
  known t ht key hkey := by
    rcases List.mem_append.mp ht with ht | ht
    · exact (h.known t ht key hkey).append
    · rw [List.mem_singleton.mp ht] at hkey
      cases hkey
  came t ht fromAddr msg hwork := by
    rcases List.mem_append.mp ht with ht | ht
    · exact List.mem_append_left _ (h.came t ht fromAddr msg hwork)
    · rw [List.mem_singleton.mp ht] at hwork
      exact List.mem_append_right _ (hcame fromAddr msg hwork)

theorem Grounded.start {s' : Upkept} {x : Begin} {t : UpkeepTask Unit} (h : Grounded ctx initial s gs)
    (hstart : (keeping ctx).start x s = some (s', work, t)) :
    ∃ known, Keeps (upkeepContract ctx work) (fun _ _ => True) known t ∧
      Grounded ctx initial s' (gs ++ [(work, known)]) := by
  cases x with
  | duty duty =>
    cases hstart
    refine ⟨[], lift_keeps ctx (perform_keeps ctx duty), h.more rfl (fun key hkey => ?_) ?_⟩
    · cases duty with
      | inbound fromAddr msg => cases List.mem_singleton.mp hkey
      | _ => cases hkey
    · rintro fromAddr msg ⟨⟩
      exact List.mem_cons_self
  | maintain last =>
    cases hstart
    have hmore : Grounded ctx initial ⟨s.node, s.log ++ []⟩ (gs ++ [(.maintenance, [])]) :=
      h.more rfl (fun _ => List.not_mem_nil) (by rintro _ _ ⟨⟩)
    rw [List.append_nil] at hmore
    exact ⟨[], (maintenance_keeps ctx last).bind fun _ _ _ => trivial, hmore⟩
  | restart now =>
    cases hstart
    have hproviders : (Network.restarted now ctx s.node).providers = s.node.providers := rfl
    have hmore : Grounded ctx initial ⟨Network.restarted now ctx s.node, s.log ++ []⟩ (gs ++ [(.restart, [])]) :=
      h.more hproviders (fun _ => List.not_mem_nil) (by rintro _ _ ⟨⟩)
    rw [List.append_nil] at hmore
    exact ⟨[], trivial, hmore⟩

end

theorem run_grounded (ctx : HandlerContext) (node : NodeState) (as : List (Action Begin Input)) :
    ∃ gs, Grounded ctx node.providers (run (keeping ctx).step (idle node) as).state gs := by
  have hfresh : ∃ gs, Kept (upkeepContract ctx) (idle node) gs ∧ Grounded ctx node.providers (idle node).state gs := by
    refine ⟨[], .nil, fun row hrow => .initial hrow, ?_, ?_, ?_⟩
    · rintro key ⟨⟩
    · rintro t ⟨⟩
    · rintro t ⟨⟩
  obtain ⟨gs, -, h⟩ := run_kept (J := Grounded ctx node.providers)
    (fun x s s' work t gs _ h hstart => h.start hstart)
    (fun work known e input s gs i _ howes hi h => ⟨trivial, h.apply hi howes input⟩)
    hfresh (meets_of_forall allows_true (idle node) as)
  exact ⟨gs, h⟩

/-- In every interleaving of the tasks of a node with maintenance cycles and restarts: each row of the provider
table was there at the start, or is of the node itself and for a key of its own, or was announced by the sender
of a message that was taken in; and stores and maintenance announce keys of the node alone. -/
theorem records_have_origins (ctx : HandlerContext) (node : NodeState) (as : List (Action Begin Input)) :
    (∀ row ∈ (run (keeping ctx).step (idle node) as).state.node.providers,
      Origin ctx node.providers (run (keeping ctx).step (idle node) as).state.log row) ∧
    ∀ key, .announced key ∈ (run (keeping ctx).step (idle node) as).state.log →
      OwnKey ctx node.providers (run (keeping ctx).step (idle node) as).state.log key := by
  obtain ⟨gs, h⟩ := run_grounded ctx node as
  exact ⟨h.rows, h.announced⟩

end TesserasDht.ProviderOrigins
