import TesserasDht.Code.Inbound
import TesserasDht.Code.Wire
import TesserasDht.Routing

/-! # What an inbound message may change -/

open Lib Lib.Tasks Lib.Files Lib.Lists Lib.Formats

namespace TesserasDht.Admission

/-! ## The checks -/

/-- What a message has to pass before it is handled. -/
structure Admissible (ctx : HandlerContext) (msg : Message) : Prop where
  key : ctx.crates.validKey msg.senderKey = true
  id : msg.senderId = ctx.crates.sha256 msg.senderKey.bytes
  difficulty : ctx.config.minPowDifficulty ≤ msg.powProof.difficulty
  pow : msg.powProof.difficulty.toNat ≤ leadingZeroBits (ctx.crates.sha256
    (msg.senderKey.bytes ++ (bigEndian 8 msg.powProof.nonce.toNat).reverse)).bytes
  signature : msg.verifySignature ctx.crates = true
  version : msg.protocolVersion = protocolVersion

theorem fromBytes_inj {a b : Bytes32} : NodeId.fromBytes a = NodeId.fromBytes b ↔ a = b := by
  cases a
  cases b
  simp [NodeId.fromBytes]

theorem verifyNodeId_iff (sha256 : Bytes → Hash) (id key : Bytes32) :
    verifyNodeId sha256 (NodeId.fromBytes id) key = true ↔ id = sha256 key.bytes := by
  rw [verifyNodeId, decide_eq_true_iff, deriveNodeId, fromBytes_inj]

theorem verifyWithMinDifficulty_iff (sha256 : Bytes → Hash) (p : PowProof) (key : Bytes32)
    (min : UInt8) :
    p.verifyWithMinDifficulty sha256 key min = true ↔ min ≤ p.difficulty ∧
      p.difficulty.toNat ≤
        leadingZeroBits (sha256 (key.bytes ++ (bigEndian 8 p.nonce.toNat).reverse)).bytes := by
  simp [PowProof.verifyWithMinDifficulty, verifyPowHash]

theorem rejection_eq_none_iff (ctx : HandlerContext) (msg : Message) :
    ctx.rejection msg = none ↔ Admissible ctx msg := by
  have hid := verifyNodeId_iff ctx.crates.sha256 msg.senderId msg.senderKey
  have hpow := verifyWithMinDifficulty_iff ctx.crates.sha256 msg.powProof msg.senderKey
    ctx.config.minPowDifficulty
  unfold HandlerContext.rejection
  constructor
  · intro h
    split_ifs at h with hkey hverify hproof hsig hversion
    simp only [Bool.not_eq_true', Bool.not_eq_false] at hkey hverify hproof hsig
    exact ⟨hkey, hid.mp hverify, (hpow.mp hproof).1, (hpow.mp hproof).2, hsig, not_not.mp hversion⟩
  · intro h
    rw [if_neg (by simp [h.key]), if_neg (by simp [hid.mpr h.id]),
      if_neg (by simp [hpow.mpr ⟨h.difficulty, h.pow⟩]), if_neg (by simp [h.signature]),
      if_neg (not_not.mpr h.version)]

/-! ## The operations of a handler -/

section

variable (ctx : HandlerContext) {P : Op → Prop}

theorem sendRequestAny_performs {origin : Origin} {addrs : List SocketAddr} {msg : Message}
    (hsend : P (.send ⟨origin, addrs, msg⟩)) (hawait : ∀ n, P (.await n)) :
    Performs P (sendRequestAny origin addrs msg) := by
  unfold sendRequestAny
  split
  · exact performs_pure _
  · simp [hsend, hawait]

theorem ownMessage_performs (hrandom : P .random) (clientMode : Bool) (payload : Payload) :
    Performs P (ctx.ownMessage clientMode payload) := by
  simp [HandlerContext.ownMessage, hrandom]

/-- What a handler does besides the routing table, once its message is accepted. -/
def AnswerOp (msg : Message) : Op → Prop
  | .random => True
  | .closestNodes _ _ => True
  | .getProviders _ => True
  | .send _ => True
  | .await _ => True
  | .sendResponse _ _ => True
  | .checkRelay _ => True
  | .checkWrite _ => True
  | .addProvider key id _ _ _ =>
    (∃ addresses, msg.payload = .addProviderRequest key addresses) ∧ id = NodeId.fromBytes msg.senderId
  | .getChunk hash => msg.payload = .getChunkRequest hash
  | .putChunk hash data => msg.payload = .putChunkRequest hash data
  | .reserveCount id _ => id = msg.senderId
  | .rollbackCount id => id = msg.senderId
  | _ => False

theorem connectBack_performs (hrandom : P .random) (hsend : ∀ out, P (.send out))
    (hawait : ∀ n, P (.await n)) (addrs : List SocketAddr) : Performs P (ctx.connectBack addrs) := by
  induction addrs with
  | nil => exact performs_pure _
  | cons addr rest ih =>
    unfold HandlerContext.connectBack HandlerContext.newMessage
    apply (ownMessage_performs ctx hrandom _ _).bind
    intro ping
    apply (sendRequestAny_performs (hsend _) hawait).bind
    intro r
    cases r with
    | some _ => exact performs_pure _
    | none => exact ih

theorem putChunk_performs (fromAddr : SocketAddr) (msg : Message) (hash : Hash) (data : Bytes)
    (hmsg : msg.payload = .putChunkRequest hash data) :
    Performs (AnswerOp msg) (ctx.putChunk fromAddr msg.senderId hash data) := by
  simp only [HandlerContext.putChunk, perform_bind, performs_op]
  refine ⟨trivial, fun checked => ?_⟩
  split
  · rw [performs_op]
    refine ⟨rfl, fun reserved => ?_⟩
    split
    · rw [performs_op]
      refine ⟨hmsg, fun stored => ?_⟩
      split
      · exact performs_pure _
      · simp [AnswerOp]
    · exact performs_pure _
  · exact performs_pure _

theorem relay_performs (hcheck : ∀ ip, P (.checkRelay ip))
    (hclosest : ∀ target count, P (.closestNodes target count)) (hsend : ∀ out, P (.send out))
    (hawait : ∀ n, P (.await n)) (fromAddr : SocketAddr) (targetId : Bytes32) (payload : Bytes)
    (relayHops : UInt8) : Performs P (ctx.relay fromAddr targetId payload relayHops) := by
  unfold HandlerContext.relay
  split_ifs
  · exact performs_pure _
  · exact performs_pure _
  · rw [perform_bind, performs_op]
    refine ⟨hcheck _, fun checked => ?_⟩
    split
    · split
      · exact performs_pure _
      · split_ifs
        · exact performs_pure _
        · exact performs_pure _
        · unfold HandlerContext.forward
          simp only [perform_bind, performs_op]
          refine ⟨hclosest _ _, fun closest => ?_⟩
          split
          · exact performs_pure _
          · apply (sendRequestAny_performs (hsend _) hawait).bind
            intro r
            split
            · exact performs_pure _
            · split
              · exact performs_pure _
              · exact performs_pure _
    · exact performs_pure _

theorem respond_performs (fromAddr : SocketAddr) (msg : Message) :
    Performs (AnswerOp msg) (ctx.respond fromAddr msg) := by
  unfold HandlerContext.respond
  split
  · exact performs_pure _
  · simp [AnswerOp]
  · simp [AnswerOp]
  next key addresses h => simp [AnswerOp, h]
  next hash h =>
    rw [perform_bind, performs_op]
    refine ⟨h, fun r => ?_⟩
    split
    · exact performs_pure _
    · exact performs_pure _
  next hash data h => exact (putChunk_performs ctx fromAddr msg hash data h).bind fun _ => performs_pure _
  next targetId payload relayHops h =>
    exact (relay_performs ctx (fun _ => trivial) (fun _ _ => trivial) (fun _ => trivial)
      (fun _ => trivial) fromAddr targetId payload relayHops).bind fun _ => performs_pure _
  next addrs _ _ h =>
    exact (connectBack_performs ctx trivial (fun _ => trivial) (fun _ => trivial) addrs).bind
      fun _ => performs_pure _
  · exact performs_pure _

theorem answer_performs (fromAddr : SocketAddr) (msg : Message) :
    Performs (AnswerOp msg) (ctx.answer fromAddr msg) := by
  apply (respond_performs ctx fromAddr msg).bind
  intro r
  split
  · exact performs_pure _
  · simp [AnswerOp]

end

/-! ## The routing table -/

/-- The same nodes, but for the sender's own entry. -/
def Refreshed (sender : NodeId) (nodes nodes' : List NodeInfo) : Prop :=
  List.Forall₂ (fun n n' => n' = n ∨ n.nodeId = sender ∧ n'.nodeId = sender) nodes nodes'

/-- The sender is added at the end or refreshed in its place. -/
def Admits (sender : NodeId) (nodes nodes' : List NodeInfo) : Prop :=
  (∃ n, n.nodeId = sender ∧ nodes' = nodes ++ [n]) ∨ Refreshed sender nodes nodes'

/-- What a message of `sender` may do to the node lists: only the bucket of the sender changes, or
the sender takes the place of the first peer of that bucket. -/
def TableChange (sender : NodeId) (t t' : RoutingTable) : Prop :=
  ∀ i, (t'.bucket i).nodes = (t.bucket i).nodes ∨
    i = t.bucketIndex sender ∧ Admits sender (t.bucket i).nodes (t'.bucket i).nodes ∨
    ∃ lrs, (t.bucket (t.bucketIndex sender)).nodes.head? = some lrs ∧ i = t.bucketIndex lrs.nodeId ∧
      ∃ n, n.nodeId = sender ∧
        (t'.bucket i).nodes = (t.bucket i).nodes.eraseP (fun m => m.nodeId = lrs.nodeId) ++ [n]

theorem TableChange.refl (sender : NodeId) (t : RoutingTable) : TableChange sender t t :=
  fun _ => Or.inl rfl

section

variable {now : Nat} {node : NodeInfo}

theorem refreshed_modifyFirst (nodes : List NodeInfo) {f : NodeInfo → NodeInfo}
    (hf : ∀ n, (f n).nodeId = n.nodeId) (id : NodeId) :
    Refreshed id nodes (modifyFirst (fun n => n.nodeId = id) f nodes) := by
  induction nodes with
  | nil => exact .nil
  | cons n rest ih =>
    unfold modifyFirst
    split
    next h =>
      have hid : n.nodeId = id := by simpa using h
      refine .cons (Or.inr ⟨hid, (hf n).trans hid⟩) ?_
      exact List.forall₂_same.mpr fun m _ => Or.inl rfl
    next => exact .cons (Or.inl rfl) ih

theorem kbucket_insert_ok {b b' : KBucket} {r : InsertResult} (h : b.insert now node = .ok (b', r)) :
    (∃ lrs, r = .bucketFull lrs.nodeId ∧ b.nodes.head? = some lrs ∧ b'.nodes = b.nodes) ∨
    (∀ id, r ≠ .bucketFull id) ∧ Admits node.nodeId b.nodes b'.nodes := by
  unfold KBucket.insert at h
  split at h
  · cases h
    refine Or.inr ⟨by rintro _ ⟨⟩, Or.inr ?_⟩
    apply refreshed_modifyFirst
    intro n
    rfl
  · split at h
    · cases h
      exact Or.inr ⟨by rintro _ ⟨⟩, Or.inl ⟨node, rfl, rfl⟩⟩
    · split at h
      · cases h
      next lrs rest hnodes =>
        cases h
        exact Or.inl ⟨lrs, rfl, by rw [hnodes]; rfl, rfl⟩

theorem insert_ok {t t' : RoutingTable} {r : InsertResult} (h : t.insert now node = .ok (t', r)) :
    t'.localId = t.localId ∧
    ((∃ lrs, r = .bucketFull lrs.nodeId ∧
        (t.bucket (t.bucketIndex node.nodeId)).nodes.head? = some lrs ∧
        ∀ i, (t'.bucket i).nodes = (t.bucket i).nodes) ∨
      (∀ id, r ≠ .bucketFull id) ∧ TableChange node.nodeId t t') := by
  unfold RoutingTable.insert at h
  split at h
  · cases h
    exact ⟨rfl, Or.inr ⟨by rintro _ ⟨⟩, .refl _ _⟩⟩
  · obtain ⟨⟨b, r'⟩, hb, h⟩ := bind_ok h
    cases h
    refine ⟨rfl, ?_⟩
    rcases kbucket_insert_ok hb with ⟨lrs, rfl, hhead, hnodes⟩ | ⟨hr, hadmits⟩
    · refine Or.inl ⟨lrs, rfl, hhead, fun i => ?_⟩
      rw [Routing.bucket_setBucket]
      split
      next hi => rw [← hi, hnodes]
      next => rfl
    · refine Or.inr ⟨hr, fun i => ?_⟩
      rw [Routing.bucket_setBucket]
      split
      next hi => exact Or.inr (Or.inl ⟨hi.symm, by rw [← hi]; exact hadmits⟩)
      next => exact Or.inl rfl

theorem evictAndInsert_nodes (now : Nat) (node : NodeInfo) (t : RoutingTable) (failedId : NodeId) (i : Fin 256) :
    ((t.evictAndInsert now failedId node).1.bucket i).nodes = (t.bucket i).nodes ∨
    i = t.bucketIndex failedId ∧ ((t.evictAndInsert now failedId node).1.bucket i).nodes =
      (t.bucket i).nodes.eraseP (fun m => m.nodeId = failedId) ++ [node] := by
  unfold RoutingTable.evictAndInsert KBucket.evictAndInsert
  dsimp only
  rw [Routing.bucket_setBucket]
  split
  next hi =>
    subst hi
    split
    · exact Or.inr ⟨rfl, rfl⟩
    · exact Or.inl rfl
  next => exact Or.inl rfl

end

section

variable (ctx : HandlerContext) (b : Build) (sha256 : Bytes → Hash) (inputs : Nat → Input)

/-- The reported peer stays, or the newcomer takes its place. -/
theorem exec_evictUnresponsive (lrs : NodeId) (node : NodeInfo) (n : Nat) (s : NodeState) :
    ∃ t requests, (exec (Op.apply b sha256) inputs n (ctx.evictUnresponsive lrs node) s).2 =
        { s with routingTable := t, requests := requests } ∧
      (t = s.routingTable ∨ ∃ now, t = (s.routingTable.evictAndInsert now lrs node).1) := by
  unfold HandlerContext.evictUnresponsive
  rw [perform_bind, exec]
  dsimp only [Op.apply]
  split
  · exact ⟨s.routingTable, s.requests, rfl, Or.inl rfl⟩
  next addr _ =>
    simp only [HandlerContext.ownMessage, sendRequestAny, List.cons_ne_nil, if_false, perform_bind,
      op_bind, pure_bind, exec]
    dsimp only [Op.apply]
    split
    · exact ⟨s.routingTable, _, rfl, Or.inl rfl⟩
    · exact ⟨_, _, rfl, Or.inr ⟨_, rfl⟩⟩

theorem exec_insertSender (fromAddr : SocketAddr) (msg : Message) (n : Nat) (s : NodeState) :
    ∃ t requests spawned,
      (exec (Op.apply b sha256) inputs n (ctx.insertSender fromAddr msg) s).2 =
        { s with routingTable := t, requests := requests, spawned := spawned } ∧
      TableChange (NodeId.fromBytes msg.senderId) s.routingTable t := by
  unfold HandlerContext.insertSender
  rw [perform_bind, exec]
  dsimp only [Op.apply]
  generalize hnode : NodeInfo.new (inputs n).now (NodeId.fromBytes msg.senderId) msg.senderKey
    [fromAddr] = node
  have hid : node.nodeId = NodeId.fromBytes msg.senderId := by
    rw [← hnode]
    rfl
  rw [perform_bind, exec]
  cases hins : s.routingTable.insert (inputs (n + 1)).now node with
  | error e =>
    simp only [Op.apply, hins]
    exact ⟨_, _, _, rfl, .refl _ _⟩
  | ok p =>
    obtain ⟨t, r⟩ := p
    obtain ⟨hlocal, hr⟩ := insert_ok hins
    rw [hid] at hr
    simp only [Op.apply, hins]
    rcases hr with ⟨lrs, rfl, hhead, hsame⟩ | ⟨hne, hchange⟩
    · -- the bucket is full
      dsimp only
      obtain ⟨t', requests, hs', ht'⟩ := exec_evictUnresponsive ctx b sha256 inputs lrs.nodeId node
        (n + 1 + 1) { s with routingTable := t }
      rw [exec_bind]
      refine ⟨t', requests, s.spawned, hs', fun i => ?_⟩
      have hindex : ∀ id, t.bucketIndex id = s.routingTable.bucketIndex id := by
        intro id
        simp only [RoutingTable.bucketIndex, hlocal]
      rcases ht' with rfl | ⟨now, rfl⟩
      · exact Or.inl (hsame i)
      · dsimp only
        rcases evictAndInsert_nodes now node t lrs.nodeId i with h | ⟨hi, h⟩
        · rw [h]
          exact Or.inl (hsame i)
        · refine Or.inr (Or.inr ⟨lrs, hhead, by rw [hi, hindex], node, hid, ?_⟩)
          rw [h, hsame]
    · cases r with
      | bucketFull id => exact absurd rfl (hne id)
      | inserted =>
        dsimp only
        split
        · exact ⟨t, _, _, rfl, hchange⟩
        · exact ⟨t, _, _, rfl, hchange⟩
      | updated => exact ⟨t, _, _, rfl, hchange⟩

end

/-! ## The chunk store -/

/-- The bytes of a chunk file. -/
def content (s : ChunkStore) (h : Hash) : Option Bytes := (s.dir.lookup h).map File.content

/-- A file appears whose content has the hash in its name, and no other file changes. -/
def Gains (sha256 : Bytes → Hash) (s s' : ChunkStore) : Prop :=
  ∀ h, content s' h = content s h ∨
    content s h = none ∧ ∃ data, content s' h = some data ∧ sha256 data = h

/-- Files disappear whose content does not have the hash in their name, and no other file changes. -/
def Drops (sha256 : Bytes → Hash) (s s' : ChunkStore) : Prop :=
  ∀ h, content s' h = content s h ∨
    content s' h = none ∧ ∃ data, content s h = some data ∧ sha256 data ≠ h

section

variable {sha256 : Bytes → Hash} {s s' s'' : ChunkStore}

theorem Gains.refl (s : ChunkStore) : Gains sha256 s s := fun _ => Or.inl rfl

theorem Drops.refl (s : ChunkStore) : Drops sha256 s s := fun _ => Or.inl rfl

theorem Gains.trans (h : Gains sha256 s s') (h' : Gains sha256 s' s'') : Gains sha256 s s'' := by
  intro x
  rcases h x with hx | ⟨hnone, data, hdata, hsha⟩
  · rw [← hx]
    exact h' x
  · rcases h' x with hx | ⟨hnone', -⟩
    · exact Or.inr ⟨hnone, data, hx.trans hdata, hsha⟩
    · rw [hdata] at hnone'
      cases hnone'

theorem Drops.trans (h : Drops sha256 s s') (h' : Drops sha256 s' s'') : Drops sha256 s s'' := by
  intro x
  rcases h x with hx | ⟨hnone, hdata⟩
  · rw [← hx]
    exact h' x
  · rcases h' x with hx | ⟨-, data, hdata', -⟩
    · exact Or.inr ⟨hx.trans hnone, hdata⟩
    · rw [hnone] at hdata'
      cases hdata'

theorem put_gains (b : Build) {io : ChunkStore.Faults} (hio : ∀ n, io.write ≠ some (.content n))
    (s : ChunkStore) (hash : Hash) (data : Bytes) : Gains sha256 s (s.put sha256 b io hash data).2 := by
  show Gains sha256 s (s.putSync sha256 b io hash data).2
  have hend := s.putSync_end sha256 b io hash data
  generalize s.putSync sha256 b io hash data = r at hend ⊢
  cases hend with
  | refused | stored | overflow | rolledBack => exact .refl s
  | cut e sum n _ _ _ _ _ _ hwrite => exact absurd hwrite (hio n)
  | done sum hlen hsha hnew =>
    intro x
    by_cases hx : x = hash
    · subst hx
      refine Or.inr ⟨by rw [content, hnew]; rfl, data, ?_, hsha⟩
      exact congrArg (Option.map File.content) (Dir.lookup_create_write_self hnew data)
    · exact Or.inl (congrArg (Option.map File.content) (Dir.lookup_create_write_of_ne hnew hx data))

theorem get_drops (io : ChunkStore.Faults) (s : ChunkStore) (hash : Hash) :
    Drops sha256 s (s.get sha256 io hash).2 := by
  show Drops sha256 s (s.getSync sha256 io hash).2
  unfold ChunkStore.getSync
  split
  · exact .refl s
  next f hf =>
    split
    · exact .refl s
    · split
      next hsha =>
        dsimp only
        split
        · exact .refl s
        · intro x
          by_cases hx : x = hash
          · subst hx
            refine Or.inr ⟨?_, f.content, ?_, hsha⟩
            · exact congrArg (Option.map File.content) (Dir.lookup_unlink_self s.dir x)
            · rw [content, hf]
              rfl
          · exact Or.inl (congrArg (Option.map File.content) (Dir.lookup_unlink_of_ne s.dir hx))
      · exact .refl s

end

/-! ## What an answer changes -/

/-- The record of a provider for a key. -/
def rowsOf (rows : List ProviderRow) (key : Hash) (id : NodeId) : List ProviderRow :=
  rows.filter fun r => r.contentKey = key ∧ r.nodeId = id

/-- The message announces `id` as a provider of `key`. -/
def Announces (msg : Message) (key : Hash) (id : NodeId) : Prop :=
  (∃ addresses, msg.payload = .addProviderRequest key addresses) ∧ id = NodeId.fromBytes msg.senderId

def Stores (msg : Message) : Prop := ∃ hash data, msg.payload = .putChunkRequest hash data

/-- What the answer to `msg` leaves alone. -/
structure Answered (sha256 : Bytes → Hash) (msg : Message) (s s' : NodeState) : Prop where
  table : s'.routingTable = s.routingTable
  spawned : s'.spawned = s.spawned
  providers : ∀ key id, ¬Announces msg key id → rowsOf s'.providers key id = rowsOf s.providers key id
  counts : ∀ id, id ≠ msg.senderId → s'.peerChunkCounts id = s.peerChunkCounts id
  gains : Stores msg → Gains sha256 s.chunks s'.chunks
  drops : ¬Stores msg → Drops sha256 s.chunks s'.chunks

section

variable {sha256 : Bytes → Hash} {msg : Message} {s s' : NodeState}

theorem Answered.refl (s : NodeState) : Answered sha256 msg s s :=
  ⟨rfl, rfl, fun _ _ _ => rfl, fun _ _ => rfl, fun _ => .refl _, fun _ => .refl _⟩

theorem rowsOf_addProvider {b : Build} {now ttl : Nat} {key key' : Hash} {id id' : NodeId}
    {pk : Bytes32} {addrs : List SocketAddr} {rows rows' : List ProviderRow}
    (h : addProvider b now ttl key id pk addrs rows = .ok rows') (hne : ¬(key' = key ∧ id' = id)) :
    rowsOf rows' key' id' = rowsOf rows key' id' := by
  obtain ⟨expires, -, h⟩ := bind_ok h
  cases h
  unfold rowsOf
  rw [List.filter_append, List.filter_filter]
  have hnew : ¬(key = key' ∧ id = id') := fun h => hne ⟨h.1.symm, h.2.symm⟩
  simp only [List.filter_cons, hnew, decide_false, Bool.false_eq_true, if_false, List.filter_nil,
    List.append_nil]
  apply List.filter_congr
  intro r _
  by_cases hr : r.contentKey = key' ∧ r.nodeId = id'
  · rw [hr.1, hr.2]
    simp [hne]
  · simp [hr]

theorem reserveCount_of_ne {max : UInt32} {sender id : Bytes32} (counts : Bytes32 → Option UInt32)
    (h : id ≠ sender) : (reserveCount max sender counts).2 id = counts id := by
  unfold reserveCount
  dsimp only
  split
  · exact Function.update_of_ne h _ _
  · exact Function.update_of_ne h _ _

/-- No operation of an answer leaves the frame. -/
theorem Answered.apply (b : Build) {e : Op} (he : AnswerOp msg e) {input : Input}
    (hio : ∀ k, input.faults.write ≠ some (.content k)) (h : Answered sha256 msg s s') :
    Answered sha256 msg s (Op.apply b sha256 e input s').2 := by
  cases e with
  | random | closestNodes | getProviders | send | await | sendResponse | checkRelay | checkWrite =>
    exact ⟨h.table, h.spawned, h.providers, h.counts, h.gains, h.drops⟩
  | addProvider key id pk addrs ttl =>
    dsimp only [Op.apply]
    split
    · exact h
    · split
      next rows hrows =>
        refine ⟨h.table, h.spawned, ?_, h.counts, h.gains, h.drops⟩
        intro key' id' hne
        dsimp only
        rw [rowsOf_addProvider hrows, h.providers key' id' hne]
        rintro ⟨rfl, rfl⟩
        exact hne he
      next => exact h
  | getChunk hash =>
    have hnot : ¬Stores msg := by
      rintro ⟨x, data, hmsg⟩
      cases hmsg.symm.trans he
    refine ⟨h.table, h.spawned, h.providers, h.counts, fun hs => absurd hs hnot, fun _ => ?_⟩
    exact (h.drops hnot).trans (get_drops _ _ _)
  | putChunk hash data =>
    refine ⟨h.table, h.spawned, h.providers, h.counts, fun hs => ?_, fun hs => absurd ⟨_, _, he⟩ hs⟩
    exact (h.gains hs).trans (put_gains b hio _ _ _)
  | reserveCount sender max =>
    refine ⟨h.table, h.spawned, h.providers, fun id hid => ?_, h.gains, h.drops⟩
    rw [← h.counts id hid]
    exact reserveCount_of_ne _ (fun heq => hid (heq.trans he))
  | rollbackCount sender =>
    refine ⟨h.table, h.spawned, h.providers, fun id hid => ?_, h.gains, h.drops⟩
    rw [← h.counts id hid]
    exact Function.update_of_ne (fun heq => hid (heq.trans he)) _ _
  | _ => exact he.elim

theorem exec_answer (ctx : HandlerContext) (b : Build) (fromAddr : SocketAddr) (msg : Message)
    {inputs : Nat → Input} (hio : ∀ n k, (inputs n).faults.write ≠ some (.content k)) (n : Nat)
    (s : NodeState) :
    Answered sha256 msg s (exec (Op.apply b sha256) inputs n (ctx.answer fromAddr msg) s).2 :=
  exec_performs (fun _ n _ he hs => hs.apply b he (hio n)) (answer_performs ctx fromAddr msg)
    (.refl s) n

end

/-! ## Replication to a new node -/

/-- What `replicate_chunks_to_node` does. -/
def ReplicateOp : Op → Prop
  | .random => True
  | .closestNodes _ _ => True
  | .getOwnProviders _ => True
  | .getChunk _ => True
  | .send out => out.origin = .own
  | _ => False

section

variable (ctx : HandlerContext) (node : NodeInfo)

theorem keysToReplicate_performs (keys : List Hash) :
    Performs ReplicateOp (ctx.keysToReplicate node keys) := by
  induction keys with
  | nil => exact performs_pure _
  | cons key rest ih =>
    unfold HandlerContext.keysToReplicate
    rw [perform_bind, performs_op]
    exact ⟨trivial, fun _ => ih.bind fun _ => performs_pure _⟩

theorem replicateChunks_performs (keys : List Hash) :
    Performs ReplicateOp (ctx.replicateChunks node keys) := by
  induction keys with
  | nil => exact performs_pure _
  | cons key rest ih =>
    unfold HandlerContext.replicateChunks
    rw [perform_bind, performs_op]
    refine ⟨trivial, fun r => ?_⟩
    split
    · apply (ownMessage_performs ctx trivial _ _).bind
      intro msg
      rw [perform_bind, performs_op]
      exact ⟨rfl, fun _ => ih⟩
    · exact ih

theorem replicateChunksToNode_performs : Performs ReplicateOp (ctx.replicateChunksToNode node) := by
  unfold HandlerContext.replicateChunksToNode
  split
  · exact performs_pure _
  · rw [perform_bind, performs_op]
    refine ⟨trivial, fun r => ?_⟩
    split
    · exact performs_pure _
    · exact (keysToReplicate_performs ctx node _).bind fun _ => replicateChunks_performs ctx node _

/-- Chunks whose content is wrong may be gone, and nothing else changes. -/
structure Replicated (sha256 : Bytes → Hash) (s s' : NodeState) : Prop where
  table : s'.routingTable = s.routingTable
  providers : s'.providers = s.providers
  counts : s'.peerChunkCounts = s.peerChunkCounts
  drops : Drops sha256 s.chunks s'.chunks

theorem exec_replicate (b : Build) (sha256 : Bytes → Hash) (inputs : Nat → Input) (n : Nat)
    {s s' : NodeState} (h : Replicated sha256 s s') :
    Replicated sha256 s (exec (Op.apply b sha256) inputs n (ctx.replicateChunksToNode node) s').2 := by
  refine exec_performs ?_ (replicateChunksToNode_performs ctx node) h n
  intro e n s' he h
  cases e with
  | random | closestNodes | getOwnProviders | send =>
    exact ⟨h.table, h.providers, h.counts, h.drops⟩
  | getChunk hash => exact ⟨h.table, h.providers, h.counts, h.drops.trans (get_drops _ _ _)⟩
  | _ => exact he.elim

end

/-! ## The whole handler -/

/-- Every peer is in the bucket of its id. Each run of table operations keeps this. -/
def Placed (t : RoutingTable) : Prop := ∀ i, ∀ n ∈ (t.bucket i).nodes, t.bucketIndex n.nodeId = i

/-- What a message may change. -/
structure Frame (sha256 : Bytes → Hash) (msg : Message) (s s' : NodeState) : Prop where
  providers : ∀ key id, ¬Announces msg key id → rowsOf s'.providers key id = rowsOf s.providers key id
  counts : ∀ id, id ≠ msg.senderId → s'.peerChunkCounts id = s.peerChunkCounts id
  chunks : ∀ h, content s'.chunks h = content s.chunks h ∨
    content s.chunks h = none ∧ (∃ data, content s'.chunks h = some data ∧ sha256 data = h) ∨
    content s'.chunks h = none ∧ ∃ data, content s.chunks h = some data ∧ sha256 data ≠ h
  table : TableChange (NodeId.fromBytes msg.senderId) s.routingTable s'.routingTable
  placed : Placed s.routingTable → ∀ i,
    let nodes := (s.routingTable.bucket i).nodes
    let nodes' := (s'.routingTable.bucket i).nodes
    nodes' = nodes ∨ i = s.routingTable.bucketIndex (NodeId.fromBytes msg.senderId) ∧
      (Admits (NodeId.fromBytes msg.senderId) nodes nodes' ∨
        ∃ lrs rest n, nodes = lrs :: rest ∧ n.nodeId = NodeId.fromBytes msg.senderId ∧
          nodes' = rest ++ [n])
  client : msg.clientMode = true → s'.routingTable = s.routingTable

theorem TableChange.of_placed {sender : NodeId} {t t' : RoutingTable} (h : TableChange sender t t')
    (hplaced : Placed t) (i : Fin 256) :
    (t'.bucket i).nodes = (t.bucket i).nodes ∨ i = t.bucketIndex sender ∧
      (Admits sender (t.bucket i).nodes (t'.bucket i).nodes ∨
        ∃ lrs rest n, (t.bucket i).nodes = lrs :: rest ∧ n.nodeId = sender ∧
          (t'.bucket i).nodes = rest ++ [n]) := by
  rcases h i with h | ⟨hi, h⟩ | ⟨lrs, hhead, hi, n, hn, h⟩
  · exact Or.inl h
  · exact Or.inr ⟨hi, Or.inl h⟩
  · obtain ⟨rest, hnodes⟩ := List.head?_eq_some_iff.mp hhead
    have hindex := hplaced (t.bucketIndex sender) lrs (by rw [hnodes]; exact List.mem_cons_self)
    rw [hindex] at hi
    subst hi
    refine Or.inr ⟨rfl, Or.inr ⟨lrs, rest, n, hnodes, hn, ?_⟩⟩
    rw [h, hnodes, List.eraseP_cons_of_pos (by simp)]

section

variable (ctx : HandlerContext) (inputs children : Nat → Input) (fromAddr : SocketAddr) (msg : Message)

/-- The state after the handler of a message and the tasks it spawned, with nothing else running. -/
def handled (s : NodeState) : NodeState :=
  let apply := Op.apply ctx.build ctx.crates.sha256
  let s' := (exec apply inputs 0 (ctx.handleInboundMessage fromAddr msg) s).2
  (s'.spawned.drop s.spawned.length).foldl
    (fun s node => (exec apply children 0 (ctx.replicateChunksToNode node) s).2) s'

theorem exec_rejected (h : ctx.rejection msg ≠ none) (s : NodeState) :
    (exec (Op.apply ctx.build ctx.crates.sha256) inputs 0 (ctx.handleInboundMessage fromAddr msg) s).2 =
      s := by
  unfold HandlerContext.handleInboundMessage
  cases hr : ctx.rejection msg with
  | some r => rfl
  | none => exact absurd hr h

/-- The table before the answer. -/
theorem exec_handler (hio : ∀ n k, (inputs n).faults.write ≠ some (.content k)) (s : NodeState) :
    ∃ s₁, Answered ctx.crates.sha256 msg s₁ (exec (Op.apply ctx.build ctx.crates.sha256) inputs 0
        (ctx.handleInboundMessage fromAddr msg) s).2 ∧
      ∃ t requests spawned,
        s₁ = { s with routingTable := t, requests := requests, spawned := spawned } ∧
        TableChange (NodeId.fromBytes msg.senderId) s.routingTable t ∧
        (msg.clientMode = true → t = s.routingTable) := by
  unfold HandlerContext.handleInboundMessage
  cases hr : ctx.rejection msg with
  | some r => exact ⟨s, .refl s, _, _, _, rfl, .refl _ _, fun _ => rfl⟩
  | none =>
    dsimp only
    split
    next hclient =>
      exact ⟨s, exec_answer ctx ctx.build fromAddr msg hio 0 s, _, _, _, rfl, .refl _ _, fun _ => rfl⟩
    next hclient =>
      obtain ⟨t, requests, spawned, hs, hchange⟩ := exec_insertSender ctx ctx.build ctx.crates.sha256
        inputs fromAddr msg 0 s
      refine ⟨_, ?_, t, requests, spawned, hs, hchange, fun h => absurd h hclient⟩
      rw [exec_bind]
      split
      · exact .refl _
      · exact exec_answer ctx ctx.build fromAddr msg hio _ _

theorem foldl_replicated (nodes : List NodeInfo) {s s' : NodeState}
    (h : Replicated ctx.crates.sha256 s s') :
    Replicated ctx.crates.sha256 s (nodes.foldl (fun s node => (exec
      (Op.apply ctx.build ctx.crates.sha256) children 0 (ctx.replicateChunksToNode node) s).2) s') := by
  induction nodes generalizing s' with
  | nil => exact h
  | cons node rest ih => exact ih (exec_replicate ctx node ctx.build ctx.crates.sha256 children 0 h)

/-- A message that fails a check changes nothing and nothing is sent. Any other message changes only
what belongs to its sender, in every state, whatever the clock, the disk, and the peers do. -/
theorem handleInboundMessage_frame (hio : ∀ n k, (inputs n).faults.write ≠ some (.content k))
    (s : NodeState) :
    (¬Admissible ctx msg → handled ctx inputs children fromAddr msg s = s) ∧
      Frame ctx.crates.sha256 msg s (handled ctx inputs children fromAddr msg s) := by
  constructor
  · intro h
    rw [← rejection_eq_none_iff] at h
    unfold handled
    dsimp only
    rw [exec_rejected ctx inputs fromAddr msg h, List.drop_length]
    rfl
  · obtain ⟨s₁, hanswer, t, requests, spawned, rfl, hchange, hclient⟩ :=
      exec_handler ctx inputs fromAddr msg hio s
    have hchild : Replicated ctx.crates.sha256 (exec (Op.apply ctx.build ctx.crates.sha256) inputs 0
        (ctx.handleInboundMessage fromAddr msg) s).2 (handled ctx inputs children fromAddr msg s) :=
      foldl_replicated ctx children _ ⟨rfl, rfl, rfl, .refl _⟩
    have htable : (handled ctx inputs children fromAddr msg s).routingTable = t :=
      hchild.table.trans hanswer.table
    refine ⟨?_, ?_, ?_, ?_, ?_, ?_⟩
    · intro key id hne
      rw [hchild.providers]
      exact hanswer.providers key id hne
    · intro id hne
      rw [hchild.counts]
      exact hanswer.counts id hne
    · intro h
      by_cases hstores : Stores msg
      · -- a chunk that was gained has its hash, so the replication keeps it
        rcases hanswer.gains hstores h with heq | ⟨hnone, data, hdata, hsha⟩
        · rcases hchild.drops h with h' | ⟨hnone', data, hdata', hsha⟩
          · exact Or.inl (h'.trans heq)
          · exact Or.inr (Or.inr ⟨hnone', data, heq.symm.trans hdata', hsha⟩)
        · rcases hchild.drops h with h' | ⟨-, data', hdata', hsha'⟩
          · exact Or.inr (Or.inl ⟨hnone, data, h'.trans hdata, hsha⟩)
          · rw [hdata] at hdata'
            cases hdata'
            exact absurd hsha hsha'
      · rcases (hanswer.drops hstores).trans hchild.drops h with h' | h'
        · exact Or.inl h'
        · exact Or.inr (Or.inr h')
    · rw [htable]
      exact hchange
    · intro hplaced i
      rw [htable]
      exact hchange.of_placed hplaced i
    · intro hmode
      rw [htable]
      exact hclient hmode

end

/-! ## A request to store a chunk -/

/-- The public key of the secret key `[1; 32]`. -/
def key1 : Bytes32 := ⟨[138, 136, 227, 221, 116, 9, 241, 149, 253, 82, 219, 45, 60, 186, 93, 114, 202, 103, 9, 191,
   29, 148, 18, 27, 243, 116, 136, 1, 180, 15, 111, 92], rfl⟩

/-- The public key of the secret key `[2; 32]`. -/
def key2 : Bytes32 := ⟨[129, 57, 119, 14, 168, 125, 23, 95, 86, 163, 84, 102, 195, 76, 126, 204, 203, 141, 138, 145,
   180, 238, 55, 162, 93, 246, 15, 91, 143, 201, 179, 148], rfl⟩

/-- A message, without proof of work, that the key signed. -/
def messageOf (key : Bytes32) (msgId : UInt64) (payload : Payload) (signature : Bytes) : Message :=
  ⟨msgId, Sha256.digest key.bytes, key, ⟨0, 0⟩, payload, signature, false, 1⟩

/-- The bytes of the message that are signed, and the signature. -/
def signedPart (m : Message) : Bytes × Bytes :=
  (bigEndian 8 m.msgId.toNat ++ m.senderId.bytes ++ m.payload.toVec, m.signature)

/-- A node that asks for no proof of work and has the secret key `[2; 32]`. -/
def contextWith (crates : Crates) : HandlerContext where
  crates
  build := .release
  secret := Bytes32.fill 2
  pow := ⟨0, 0⟩
  localAddr := .v4 127 0 0 1 4433
  config := { k := 20, alpha := 3, maxFailures := 3, providerTtl := 48 * 3600, maxRelayHops := 1,
              maxRelayPayload := 65536, minPowDifficulty := 0, maxChunksPerPeer := 2,
              clientMode := false, proactiveReplication := true }

/-- The state of that node at its start. -/
def freshState : NodeState where
  routingTable := RoutingTable.new 0 (NodeId.fromBytes (Sha256.digest key2.bytes)) 20
  providers := []
  savedPeers := []
  chunks := ChunkStore.new 1000 Dir.empty
  relayLimiter := .new 10 20
  writeLimiter := .new 10 20
  peerChunkCounts := fun _ => none
  externalAddr := none
  requests := []
  responses := []
  spawned := []

/-- Nothing fails, the clocks stand still, and no peer answers. -/
def quietInput : Input := ⟨0, 0, 0, .none, false, none⟩

def putSeven : Message :=
  messageOf key1 7 (.putChunkRequest (Sha256.digest [7]) [7])
    [82, 66, 76, 178, 178, 222, 217, 228, 1, 220, 24, 215, 192, 75, 152, 114, 7, 248, 145, 90,
     129, 85, 86, 4, 129, 93, 193, 82, 170, 122, 0, 78, 228, 63, 24, 27, 140, 163, 192, 50, 137,
     228, 223, 103, 229, 61, 234, 73, 204, 117, 220, 167, 190, 31, 217, 231, 84, 95, 244, 196,
     70, 83, 225, 2]

def putCrates : Crates := .knowing
  [⟨Bytes32.fill 1, key1, [signedPart putSeven]⟩, ⟨Bytes32.fill 2, key2, []⟩] []

/-- The chunk is stored. -/
theorem handleInboundMessage_frame_put :
    let s := handled (contextWith putCrates) (fun _ => quietInput) (fun _ => quietInput)
      (.v4 127 0 0 1 4434) putSeven freshState
    Admissible (contextWith putCrates) putSeven ∧ Frame Sha256.digest putSeven freshState s ∧
      content s.chunks (Sha256.digest [7]) = some [7] := by
  intro s
  refine ⟨(rejection_eq_none_iff _ _).mp (by decide +kernel), ?_, by decide +kernel⟩
  exact (handleInboundMessage_frame (contextWith putCrates) (fun _ => quietInput)
    (fun _ => quietInput) (.v4 127 0 0 1 4434) putSeven (by rintro _ _ ⟨⟩) freshState).2

end TesserasDht.Admission
