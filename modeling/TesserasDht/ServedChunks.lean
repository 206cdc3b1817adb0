import TesserasDht.ChunkFailures
import TesserasDht.Conduct
import TesserasDht.Resend
import TesserasDht.Retrieve
import TesserasDht.Routines
import TesserasDht.Watched

/-!
# The chunks that a node serves

What a node hands out under a hash has that hash, whatever happened to its disk. A chunk whose storage was
acknowledged is there for every later request, as long as the disk does what it is told. A call of the chunk
store is one step here, so none runs during another.
-/

open Lib.Files Lib.Runs Lib.Tasks

namespace TesserasDht.ServedChunks

open Admission ChunkStore Routines

/-! ## A node and its disk -/

/-- What begins, or happens to the node. -/
inductive Begin
  | duty (duty : Duty)
  /-- A new process on the same disk. -/
  | restart (now : Nat)
  /-- The chunk files change from outside. -/
  | disk (dir : Dir Hash UInt8)

/-- The files are left to the node. -/
def Untouched : Begin → Prop
  | .disk _ => False
  | _ => True

instance : (x : Begin) → Decidable (Untouched x)
  | .disk _ => isFalse id
  | .duty _ | .restart _ => isTrue trivial

/-- What is seen of the chunks. -/
inductive ChunkEvent
  /-- A request to store the chunk was answered with `ok`. -/
  | acknowledged (hash : Hash)
  /-- A request for the chunk was answered. When it came, the chunks of `promised` were acknowledged. -/
  | served (promised : List Hash) (hash : Hash) (data : Bytes)
  /-- A store or a replication sent the chunk to a peer. -/
  | pushed (hash : Hash) (data : Bytes)
deriving DecidableEq

def acknowledged (log : List ChunkEvent) : List Hash :=
  log.filterMap fun e => match e with
    | .acknowledged hash => some hash
    | _ => none

structure Served where
  node : NodeState
  log : List ChunkEvent

/-- A task, and what was acknowledged when it began. -/
structure Label where
  duty : Option Duty
  promised : List Hash

namespace Label

def request (label : Label) : Option Message :=
  match label.duty with
  | some (.inbound _ msg) => some msg
  | _ => none

def pushes (label : Label) : Bool :=
  match label.duty with
  | some (.replicate _) | some (.store _ _) => true
  | _ => false

end Label

/-- What an operation shows. -/
def events (label : Label) : Op → List ChunkEvent
  | .sendResponse _ response =>
    match label.request.map Message.payload, response.payload with
    | some (.putChunkRequest hash _), .putChunkResponse true => [.acknowledged hash]
    | some (.getChunkRequest hash), .getChunkResponse data => [.served label.promised hash data]
    | _, _ => []
  | .send out =>
    match label.pushes, out.msg.payload with
    | true, .putChunkRequest hash data => [.pushed hash data]
    | _, _ => []
  | _ => []

/-- The node of the new process. -/
def rebooted (now : Nat) (ctx : HandlerContext) (s : NodeState) : NodeState :=
  { Network.restarted now ctx s with chunks := ChunkStore.new s.chunks.maxStorage s.chunks.dir }

def serving (ctx : HandlerContext) : System Served Label Input Begin Op Op.Result where
  apply label e input s :=
    let (r, node) := e.apply ctx.build ctx.crates.sha256 input s.node
    (r, ⟨node, s.log ++ events label e⟩)
  start x s :=
    match x with
    | .duty duty => some (s, ⟨some duty, acknowledged s.log⟩, ctx.perform duty)
    | .restart now => some ({ s with node := rebooted now ctx s.node }, ⟨none, acknowledged s.log⟩, pure ())
    | .disk dir =>
      some ({ s with node := { s.node with chunks := { s.node.chunks with dir } } },
        ⟨none, acknowledged s.log⟩, pure ())

def idle (s : NodeState) : Pool Served Label Op Op.Result := ⟨⟨s, []⟩, []⟩

/-! ## What the tasks do -/

/-- The answer to a request for the chunk is the chunk, or nothing. It is the chunk if that was promised
and `sturdy` holds. -/
def Verified (sha256 : Bytes → Hash) (sturdy : Prop) (promised : List Hash) (hash : Hash) (data : Bytes) : Prop :=
  (data = [] ∨ sha256 data = hash) ∧ (sturdy → hash ∈ promised → sha256 data = hash)

/-- The ghost state tells whether the task has stored the chunk that it is asked to store. -/
def contract (sha256 : Bytes → Hash) (sturdy : Prop) (label : Label) : Contract Bool Op Op.Result where
  owes stored
    | .putChunk hash _ => ∀ m ∈ label.request, ∀ h data, m.payload = .putChunkRequest h data → h = hash
    | .send out => label.pushes = true →
      ∀ hash data, out.msg.payload = .putChunkRequest hash data → sha256 data = hash
    | .sendResponse _ response => ∀ m ∈ label.request,
      (∀ hash data, m.payload = .putChunkRequest hash data → response.payload = .putChunkResponse true →
        stored = true) ∧
      ∀ hash data, m.payload = .getChunkRequest hash → response.payload = .getChunkResponse data →
        Verified sha256 sturdy label.promised hash data
    | _ => True
  gets _ e := match e with
    | .getChunk hash => fun (r : Outcome (Option Bytes)) =>
      (∀ data, r = .ok (some data) → sha256 data = hash) ∧
        (sturdy → hash ∈ label.promised → ∃ data, r = .ok (some data))
    | .putChunk hash data => fun (r : Outcome Unit) => r = .ok () → sha256 data = hash
    | _ => fun _ => True
  next stored e := match e with
    | .putChunk _ _ => fun (r : Outcome Unit) => stored || r.isOk
    | _ => fun _ => stored

/-- The operation says nothing of chunks and changes none. -/
def Plain (label : Label) : Op → Prop
  | .putChunk _ _ | .sendResponse _ _ => False
  | .send _ => label.pushes = false
  | _ => True

section

variable (ctx : HandlerContext) {sturdy : Prop} {label : Label} {stored : Bool} {α : Type}

theorem greets_plain (hpushes : label.pushes = false) : Greets ctx (Plain label) where
  random := trivial
  send _ := hpushes
  await _ := trivial
  closestNodes _ _ := trivial
  externalAddr := trivial
  now := trivial
  insert _ _ _ _ := trivial
  recordFailure _ := trivial
  recordFailureByAddr _ := trivial
  setExternalAddr _ := trivial

theorem keeps_of_plain {t : NodeTask α} (h : Performs (Plain label) t) :
    Keeps (contract ctx.crates.sha256 sturdy label) (fun stored' _ => stored' = stored) stored t := by
  refine h.keeps (fun e he => ?_) fun e r he => ?_
  · cases e with
    | putChunk => exact he.elim
    | sendResponse => exact he.elim
    | send out =>
      intro hpushes
      rw [show label.pushes = false from he] at hpushes
      cases hpushes
    | _ => exact trivial
  · cases e with
    | putChunk => exact he.elim
    | _ => rfl

/-! ## Stores and replication -/

theorem newMessage_keeps (payload : Payload) :
    Keeps (contract ctx.crates.sha256 sturdy label) (fun stored' msg => stored' = stored ∧ msg.payload = payload)
      stored (ctx.newMessage payload) := by
  refine ⟨trivial, fun msgId _ => ⟨rfl, ?_⟩⟩
  exact (Conduct.sign_fields ctx.crates ctx.secret _).2.2.1

theorem sendToPeers_keeps {payload : Payload}
    (hpayload : ∀ hash data, payload = .putChunkRequest hash data → ctx.crates.sha256 data = hash)
    (peers : List NodeInfo) :
    Keeps (contract ctx.crates.sha256 sturdy label) (fun stored' _ => stored' = stored) stored
      (ctx.sendToPeers payload peers) := by
  refine (Watched.sendToPeers_sends ctx payload peers).keeps (fun e he => ?_) fun e r he => ?_
  · cases e with
    | random => exact trivial
    | send out =>
      rintro - hash data hsent
      exact hpayload hash data ((show out.msg.payload = payload from he).symm.trans hsent)
    | _ => exact he.elim
  · cases e with
    | random => rfl
    | send out => rfl
    | _ => exact he.elim

theorem replicateChunks_keeps (newNode : NodeInfo) (keys : List Hash) :
    Keeps (contract ctx.crates.sha256 sturdy label) (fun stored' _ => stored' = stored) stored
      (ctx.replicateChunks newNode keys) := by
  induction keys with
  | nil => exact rfl
  | cons key rest ih =>
    unfold HandlerContext.replicateChunks
    refine Keeps.perform trivial fun r hr => ?_
    rcases r with _ | _ | data
    · exact ih
    · exact ih
    · apply (newMessage_keeps ctx _).bind
      rintro _ msg ⟨rfl, hmsg⟩
      refine ⟨fun _ hash data' hpayload => ?_, fun request _ => ih⟩
      cases hmsg.symm.trans hpayload
      exact hr.1 data rfl

theorem replicate_keeps (newNode : NodeInfo) :
    Keeps (contract ctx.crates.sha256 sturdy label) (fun stored' _ => stored' = stored) stored
      (ctx.replicateChunksToNode newNode) := by
  unfold HandlerContext.replicateChunksToNode
  split
  · exact rfl
  · refine Keeps.perform trivial fun keys _ => ?_
    cases keys with
    | none => exact rfl
    | some keys =>
      have hkeys (keys : List Hash) : Performs (Plain label) (ctx.keysToReplicate newNode keys) := by
        induction keys with
        | nil => exact performs_pure _
        | cons key rest ih => exact ⟨trivial, fun closest _ => ih.bind fun _ => performs_pure _⟩
      apply (keeps_of_plain ctx (hkeys keys)).bind
      rintro _ keys rfl
      exact replicateChunks_keeps ctx newNode keys

/-- Chunks that the store took have their hash. -/
theorem putEach_keeps (hlabel : label.request = none) (chunks : List (Hash × Bytes)) :
    Keeps (contract ctx.crates.sha256 sturdy label)
      (fun _ r => r = .ok () → ∀ c ∈ chunks, ctx.crates.sha256 c.2 = c.1) stored
      (HandlerContext.putEach chunks) := by
  induction chunks generalizing stored with
  | nil => exact fun _ c hc => absurd hc List.not_mem_nil
  | cons chunk rest ih =>
    refine Keeps.perform (fun m hm => by rw [hlabel] at hm; cases hm) fun r hr => ?_
    rcases r with e | u
    · rintro ⟨⟩
    · refine ih.mono fun _ r hrest hok c hc => ?_
      rcases List.mem_cons.mp hc with rfl | hc
      · exact hr rfl
      · exact hrest hok c hc

theorem distributeEach_keeps (announceAddr : SocketAddr) {chunks : List (Hash × Bytes)}
    (hchunks : ∀ c ∈ chunks, ctx.crates.sha256 c.2 = c.1) :
    Keeps (contract ctx.crates.sha256 sturdy label) (fun stored' _ => stored' = stored) stored
      (ctx.distributeEach announceAddr chunks) := by
  induction chunks with
  | nil => exact rfl
  | cons chunk rest ih =>
    obtain ⟨hchunk, hrest⟩ := List.forall_mem_cons.mp hchunks
    refine Keeps.perform trivial fun closest _ => ?_
    apply (sendToPeers_keeps ctx ?_ _).bind
    · rintro _ sent rfl
      refine Keeps.perform trivial fun _ _ => ?_
      apply (ih hrest).bind
      rintro _ sent rfl
      exact rfl
    · rintro hash data ⟨⟩
      exact hchunk

theorem announceEach_keeps (announceAddr : SocketAddr) (chunks : List (Hash × Bytes)) :
    Keeps (contract ctx.crates.sha256 sturdy label) (fun stored' _ => stored' = stored) stored
      (ctx.announceEach announceAddr chunks) := by
  induction chunks with
  | nil => exact rfl
  | cons chunk rest ih =>
    refine Keeps.perform trivial fun closest _ => ?_
    apply (sendToPeers_keeps ctx (by rintro _ _ ⟨⟩) _).bind
    rintro _ sent rfl
    apply ih.bind
    rintro _ sent rfl
    exact rfl

theorem distributeBlocks_keeps (hlabel : label.request = none) (announceAddr : SocketAddr)
    (blocks : List (List (Hash × Bytes))) :
    Keeps (contract ctx.crates.sha256 sturdy label) (fun _ _ => True) stored
      (ctx.distributeBlocks announceAddr blocks) := by
  induction blocks generalizing stored with
  | nil => exact trivial
  | cons chunks rest ih =>
    apply (putEach_keeps ctx hlabel chunks).bind
    intro stored₁ r hr
    cases r with
    | error e => exact trivial
    | ok u =>
      apply (distributeEach_keeps ctx announceAddr (hr rfl)).bind
      rintro _ puts rfl
      apply (announceEach_keeps ctx announceAddr chunks).bind
      rintro _ announces rfl
      apply ih.bind
      intro _ r _
      cases r with
      | error e => exact trivial
      | ok sent => exact trivial

/-- Waiting for answers says nothing of chunks, and neither does the accounting. -/
theorem awaitPeers_plain (sent : List (NodeId × Nat)) : Performs (Plain label) (HandlerContext.awaitPeers sent) := by
  induction sent with
  | nil => exact performs_pure _
  | cons x rest ih => exact ⟨trivial, fun resp _ => ih.bind fun _ => performs_pure _⟩

theorem settleEach_plain (results : List (NodeId × Option Message)) :
    Performs (Plain label) (ctx.settleEach results) := by
  induction results with
  | nil => exact performs_pure _
  | cons x rest ih =>
    obtain ⟨peerId, resp⟩ := x
    cases resp with
    | some resp => exact ih
    | none => exact ⟨trivial, fun _ _ => ih⟩

theorem store_keeps (hlabel : label.request = none) (blocks : List (List (Hash × Bytes)))
    (manifest : Hash × Bytes) :
    Keeps (contract ctx.crates.sha256 sturdy label) (fun _ _ => True) stored
      (ctx.distributeTessera blocks manifest) := by
  refine Keeps.perform trivial fun external _ => ?_
  apply (distributeBlocks_keeps ctx hlabel _ blocks).bind
  intro stored₁ r _
  cases r with
  | error e => exact trivial
  | ok sent =>
    apply (keeps_of_plain ctx (awaitPeers_plain sent)).bind
    rintro _ results rfl
    apply (keeps_of_plain ctx (settleEach_plain ctx results)).bind
    rintro _ _ rfl
    refine Keeps.perform (fun m hm => by rw [hlabel] at hm; cases hm) fun r hr => ?_
    rcases r with e | u
    · exact trivial
    · refine Keeps.perform trivial fun closest _ => ?_
      apply (sendToPeers_keeps ctx ?_ _).bind
      · rintro _ puts rfl
        apply (sendToPeers_keeps ctx (by rintro _ _ ⟨⟩) _).bind
        rintro _ announces rfl
        exact (keeps_of_plain ctx (awaitPeers_plain _)).bind fun _ _ _ => trivial
      · rintro hash data ⟨⟩
        exact hr rfl

/-! ## Inbound messages -/

theorem admits_plain (hpushes : label.pushes = false) : Watched.Admits ctx (Plain label) :=
  ⟨greets_plain ctx hpushes, fun _ _ => trivial, fun _ => trivial⟩

/-- The payload of an answer is one that the handler owes. -/
def Fits (sha256 : Bytes → Hash) (sturdy : Prop) (promised : List Hash) (msg : Message) (stored : Bool)
    (payload : Payload) : Prop :=
  (∀ hash data, msg.payload = .putChunkRequest hash data → payload = .putChunkResponse true → stored = true) ∧
    ∀ hash data, msg.payload = .getChunkRequest hash → payload = .getChunkResponse data →
      Verified sha256 sturdy promised hash data

section

variable (fromAddr : SocketAddr) (msg : Message) (promised : List Hash)

theorem putChunk_keeps {hash : Hash} {data : Bytes} (hmsg : msg.payload = .putChunkRequest hash data) :
    Keeps (contract ctx.crates.sha256 sturdy ⟨some (.inbound fromAddr msg), promised⟩)
      (fun stored payload => Fits ctx.crates.sha256 sturdy promised msg stored payload) false
      (ctx.putChunk fromAddr msg.senderId hash data) := by
  have hrefused (stored : Bool) :
      Fits ctx.crates.sha256 sturdy promised msg stored (.putChunkResponse false) :=
    ⟨by rintro _ _ _ ⟨⟩, by rintro _ _ _ ⟨⟩⟩
  unfold HandlerContext.putChunk
  refine Keeps.perform trivial fun checked _ => ?_
  split
  · refine Keeps.perform trivial fun reserved _ => ?_
    split
    · refine Keeps.perform ?_ fun r _ => ?_
      · rintro _ ⟨⟩ h data' hpayload
        cases hmsg.symm.trans hpayload
        rfl
      · rcases r with e | u
        · exact ⟨trivial, fun _ _ => hrefused _⟩
        · exact ⟨fun _ _ _ _ => rfl, by rintro _ _ _ ⟨⟩⟩
    · exact hrefused _
  · exact hrefused _

theorem getChunk_keeps {hash : Hash} (hmsg : msg.payload = .getChunkRequest hash) :
    Keeps (contract ctx.crates.sha256 sturdy ⟨some (.inbound fromAddr msg), promised⟩)
      (fun stored r => ∀ payload ∈ r, Fits ctx.crates.sha256 sturdy promised msg stored payload) false
      (ctx.respond fromAddr msg) := by
  unfold HandlerContext.respond
  rw [hmsg]
  refine Keeps.perform trivial fun r hr => ?_
  have hfits (data : Bytes) (h : Verified ctx.crates.sha256 sturdy promised hash data) (stored : Bool) :
      Fits ctx.crates.sha256 sturdy promised msg stored (.getChunkResponse data) := by
    refine ⟨by rintro _ _ _ ⟨⟩, fun hash' data' hpayload hdata => ?_⟩
    cases hmsg.symm.trans hpayload
    cases hdata
    exact h
  rcases r with e | _ | data
  · rintro _ ⟨⟩
    refine hfits [] ⟨Or.inl rfl, fun hsturdy hpromised => ?_⟩ _
    obtain ⟨data, hdata⟩ := hr.2 hsturdy hpromised
    cases hdata
  · rintro _ ⟨⟩
    refine hfits [] ⟨Or.inl rfl, fun hsturdy hpromised => ?_⟩ _
    obtain ⟨data, hdata⟩ := hr.2 hsturdy hpromised
    cases hdata
  · rintro _ ⟨⟩
    exact hfits data ⟨Or.inr (hr.1 data rfl), fun _ _ => hr.1 data rfl⟩ _

theorem respond_plain (hget : ∀ hash, msg.payload ≠ .getChunkRequest hash)
    (hput : ∀ hash data, msg.payload ≠ .putChunkRequest hash data) (hpushes : label.pushes = false) :
    Performs (Plain label) (ctx.respond fromAddr msg) := by
  unfold HandlerContext.respond
  split
  · exact performs_pure _
  · exact ⟨trivial, fun _ _ => performs_pure _⟩
  · exact ⟨trivial, fun _ _ => ⟨trivial, fun _ _ => performs_pure _⟩⟩
  · exact ⟨trivial, fun _ _ => performs_pure _⟩
  next hash h => exact absurd h (hget hash)
  next hash data h => exact absurd h (hput hash data)
  · exact (relay_performs ctx (fun _ => trivial) (fun _ _ => trivial) (fun _ => hpushes)
      (fun _ => trivial) _ _ _ _).bind fun _ => performs_pure _
  · exact (connectBack_performs ctx trivial (fun _ => hpushes) (fun _ => trivial) _).bind
      fun _ => performs_pure _
  · exact performs_pure _

theorem respond_keeps :
    Keeps (contract ctx.crates.sha256 sturdy ⟨some (.inbound fromAddr msg), promised⟩)
      (fun stored r => ∀ payload ∈ r, Fits ctx.crates.sha256 sturdy promised msg stored payload) false
      (ctx.respond fromAddr msg) := by
  by_cases hput : ∃ hash data, msg.payload = .putChunkRequest hash data
  · obtain ⟨hash, data, hmsg⟩ := hput
    unfold HandlerContext.respond
    rw [hmsg]
    apply (putChunk_keeps ctx fromAddr msg promised hmsg).bind
    rintro stored payload hfits _ ⟨⟩
    exact hfits
  · by_cases hget : ∃ hash, msg.payload = .getChunkRequest hash
    · obtain ⟨hash, hmsg⟩ := hget
      exact getChunk_keeps ctx fromAddr msg promised hmsg
    · have hplain : Performs (Plain ⟨some (.inbound fromAddr msg), promised⟩) (ctx.respond fromAddr msg) :=
        respond_plain ctx fromAddr msg (fun hash h => hget ⟨hash, h⟩) (fun hash data h => hput ⟨hash, data, h⟩) rfl
      refine (keeps_of_plain ctx hplain).mono fun _ _ _ payload _ => ⟨?_, ?_⟩
      · exact fun hash data h => absurd ⟨hash, data, h⟩ hput
      · exact fun hash _ h => absurd ⟨hash, h⟩ hget

theorem answer_keeps :
    Keeps (contract ctx.crates.sha256 sturdy ⟨some (.inbound fromAddr msg), promised⟩) (fun _ _ => True) false
      (ctx.answer fromAddr msg) := by
  apply (respond_keeps ctx fromAddr msg promised).bind
  intro stored r hr
  cases r with
  | none => exact trivial
  | some payload =>
    obtain ⟨hput, hget⟩ := hr payload rfl
    refine ⟨?_, fun _ _ => trivial⟩
    rintro _ ⟨⟩
    rw [(Conduct.sign_fields ctx.crates ctx.secret _).2.2.1]
    exact ⟨hput, hget⟩

theorem handle_keeps :
    Keeps (contract ctx.crates.sha256 sturdy ⟨some (.inbound fromAddr msg), promised⟩) (fun _ _ => True) false
      (ctx.handleInboundMessage fromAddr msg) := by
  unfold HandlerContext.handleInboundMessage
  split
  · exact trivial
  · split
    · exact answer_keeps ctx fromAddr msg promised
    · have hplain : Performs (Plain ⟨some (.inbound fromAddr msg), promised⟩) (ctx.insertSender fromAddr msg) :=
        Watched.insertSender_performs ctx (admits_plain ctx rfl) fromAddr msg
      apply (keeps_of_plain ctx hplain).bind
      rintro _ r rfl
      cases r with
      | error e => exact trivial
      | ok u => exact answer_keeps ctx fromAddr msg promised

end

theorem perform_keeps (duty : Duty) (promised : List Hash) :
    Keeps (contract ctx.crates.sha256 sturdy ⟨some duty, promised⟩) (fun _ _ => True) false (ctx.perform duty) := by
  have hquiet {t : NodeTask Unit} (h : Performs (Plain ⟨some duty, promised⟩) t) :
      Keeps (contract ctx.crates.sha256 sturdy ⟨some duty, promised⟩) (fun _ _ => True) false t :=
    (keeps_of_plain ctx h).mono fun _ _ _ => trivial
  cases duty with
  | inbound fromAddr msg => exact handle_keeps ctx fromAddr msg promised
  | replicate newNode => exact (replicate_keeps ctx newNode).mono fun _ _ _ => trivial
  | query target peerId addrs =>
    exact hquiet ((queryPeer_performs ctx (greets_plain ctx rfl) target peerId addrs).bind
      fun _ => performs_pure _)
  | bootstrap addrs => exact hquiet (doBootstrap_performs ctx (greets_plain ctx rfl) addrs)
  | getProviders key =>
    exact hquiet ((doGetProviders_performs ctx (greets_plain ctx rfl) (fun _ => trivial) key).bind
      fun _ => performs_pure _)
  | store blocks manifest => exact store_keeps ctx rfl blocks manifest
  | request addrs target payload =>
    have htalks : Talks (Plain ⟨some (.request addrs target payload), promised⟩) := (greets_plain ctx rfl).toTalks
    apply hquiet
    apply (newMessage_performs ctx htalks payload).bind
    intro msg
    exact (sendWithNatTraversal_performs ctx htalks addrs target msg).bind fun _ => performs_pure _
  | save => exact ⟨trivial, fun _ _ => ⟨trivial, fun _ _ => trivial⟩⟩
  | cleanup => exact ⟨trivial, fun _ _ => ⟨trivial, fun _ _ => ⟨trivial, fun _ _ => trivial⟩⟩⟩

end

/-! ## The disk -/

/-- Every chunk file has the content of its name. -/
def Sound (sha256 : Bytes → Hash) (s : ChunkStore) : Prop :=
  ∀ hash, ∀ f ∈ s.dir.lookup hash, sha256 f.content = hash

/-- The disk reads what is there, and writes all or nothing. -/
def Sturdy (input : Input) : Prop :=
  input.faults.read = false ∧ (input.faults.write = none ∨ input.faults.write = some .open)

instance (input : Input) : Decidable (Sturdy input) :=
  match h : input.faults.write with
  | none | some .open => decidable_of_iff (input.faults.read = false) (by simp [Sturdy, h])
  | some (.content _) => isFalse (by simp [Sturdy, h])

section

variable {sha256 : Bytes → Hash} {b : Build} {s : ChunkStore} {hash : Hash} {io : Faults}

theorem get_verified {data : Bytes} (h : (s.get sha256 io hash).1 = .ok (some data)) : sha256 data = hash := by
  obtain ⟨-, f, -, -, hsha⟩ := Retrieve.get_ok_some.mp h
  exact hsha

theorem get_sound (hs : Sound sha256 s) :
    (s.get sha256 io hash).2 = s ∧ (io.read = false → s.exists hash = true →
      ∃ data, (s.get sha256 io hash).1 = .ok (some data)) := by
  unfold ChunkStore.get ChunkStore.getSync
  cases hlookup : s.dir.lookup hash with
  | none =>
    refine ⟨rfl, fun _ hexists => ?_⟩
    rw [ChunkStore.exists, hlookup] at hexists
    cases hexists
  | some f =>
    have hsha := hs hash f hlookup
    dsimp only
    rw [if_neg (not_not.mpr hsha)]
    cases hread : io.read with
    | true => exact ⟨rfl, by rintro ⟨⟩⟩
    | false => exact ⟨rfl, fun _ _ => ⟨f.content, rfl⟩⟩

theorem put_sound (hs : Sound sha256 s) (hio : io.write = none ∨ io.write = some .open) (data : Bytes) :
    Sound sha256 (s.put sha256 b io hash data).2 := by
  change Sound sha256 (s.putSync sha256 b io hash data).2
  have hend := s.putSync_end sha256 b io hash data
  generalize s.putSync sha256 b io hash data = r at hend ⊢
  cases hend with
  | refused | stored | overflow | rolledBack => exact hs
  | cut e sum n _ _ _ _ _ _ hwrite =>
    rw [hwrite] at hio
    exact absurd hio (by rintro (⟨⟨⟩⟩ | ⟨⟨⟩⟩))
  | done sum hlen hsha hnew =>
    intro h f hf
    change ((s.dir.create hash).1.write (s.dir.create hash).2 data).lookup h = some f at hf
    by_cases hh : h = hash
    · subst hh
      rw [Dir.lookup_create_write_self hnew] at hf
      cases hf
      exact hsha
    · rw [Dir.lookup_create_write_of_ne hnew hh] at hf
      exact hs h f hf

end

/-- Only two operations touch the store, and on a sturdy disk no chunk goes away. -/
theorem apply_chunks {sha256 : Bytes → Hash} (b : Build) {input : Input} {s : NodeState} (hs : Sound sha256 s.chunks)
    (hinput : Sturdy input) (e : Op) :
    Sound sha256 (e.apply b sha256 input s).2.chunks ∧ Resend.Grows s.chunks (e.apply b sha256 input s).2.chunks := by
  have hsame : Sound sha256 s.chunks ∧ Resend.Grows s.chunks s.chunks := ⟨hs, fun _ h => h⟩
  cases e with
  | getChunk hash =>
    change Sound sha256 (s.chunks.get sha256 input.faults hash).2 ∧ Resend.Grows s.chunks
      (s.chunks.get sha256 input.faults hash).2
    rw [(get_sound hs).1]
    exact hsame
  | putChunk hash data =>
    exact ⟨put_sound hs hinput.2 data, (Resend.put_cases sha256 b input.faults s.chunks hash data).1⟩
  | insert node =>
    dsimp only [Op.apply]
    split
    · exact hsame
    · exact hsame
  | savePeersBatch peers =>
    dsimp only [Op.apply]
    split
    · exact hsame
    · exact hsame
  | addProvider key id pk addrs ttl =>
    dsimp only [Op.apply]
    split
    · exact hsame
    · split
      · exact hsame
      · exact hsame
  | _ => exact hsame

/-! ## Runs -/

/-- What an event says is true. -/
def Holds (sha256 : Bytes → Hash) (sturdy : Prop) : ChunkEvent → Prop
  | .acknowledged _ => True
  | .served promised hash data => Verified sha256 sturdy promised hash data
  | .pushed hash data => sha256 data = hash

structure Keeping (ctx : HandlerContext) (sturdy : Prop) (s : Served) (gs : List (Label × Bool)) : Prop where
  log : ∀ e ∈ s.log, Holds ctx.crates.sha256 sturdy e
  promised : ∀ t ∈ gs, ∀ hash ∈ t.1.promised, hash ∈ acknowledged s.log
  sound : sturdy → Sound ctx.crates.sha256 s.node.chunks
  held : sturdy → ∀ hash ∈ acknowledged s.log, s.node.chunks.exists hash = true
  stored : sturdy → ∀ t ∈ gs, t.2 = true → ∀ m ∈ t.1.request, ∀ hash data,
    m.payload = .putChunkRequest hash data → s.node.chunks.exists hash = true

section

variable {ctx : HandlerContext} {sturdy : Prop} {label : Label} {stored : Bool} {e : Op}

theorem acknowledged_append (log new : List ChunkEvent) :
    acknowledged (log ++ new) = acknowledged log ++ acknowledged new := List.filterMap_append

/-- Every event of an operation is one that the task owes. -/
theorem events_hold (howes : (contract ctx.crates.sha256 sturdy label).owes stored e) :
    ∀ x ∈ events label e, Holds ctx.crates.sha256 sturdy x := by
  intro x hx
  cases e with
  | sendResponse addr response =>
    dsimp only [events] at hx
    split at hx
    · rw [List.mem_singleton.mp hx]
      exact trivial
    next hash data hrequest hresponse =>
      obtain ⟨m, hm, hpayload⟩ := Option.map_eq_some_iff.mp hrequest
      rw [List.mem_singleton.mp hx]
      exact (howes m hm).2 hash data hpayload hresponse
    · cases hx
  | send out =>
    dsimp only [events] at hx
    split at hx
    next hash data hpushes hpayload =>
      rw [List.mem_singleton.mp hx]
      exact howes hpushes hash data hpayload
    · cases hx
  | _ => cases hx

/-- What is acknowledged now was stored by the task. -/
theorem events_stored (howes : (contract ctx.crates.sha256 sturdy label).owes stored e) {hash : Hash}
    (hash_mem : hash ∈ acknowledged (events label e)) :
    stored = true ∧ ∃ m ∈ label.request, ∃ data, m.payload = .putChunkRequest hash data := by
  cases e with
  | sendResponse addr response =>
    dsimp only [events] at hash_mem
    split at hash_mem
    next hash' data hrequest hresponse =>
      obtain ⟨m, hm, hpayload⟩ := Option.map_eq_some_iff.mp hrequest
      obtain rfl : hash = hash' := by simpa [acknowledged] using hash_mem
      exact ⟨(howes m hm).1 hash data hpayload hresponse, m, hm, data, hpayload⟩
    · simp [acknowledged] at hash_mem
    · cases hash_mem
  | send out =>
    dsimp only [events] at hash_mem
    split at hash_mem
    · simp [acknowledged] at hash_mem
    · cases hash_mem
  | _ => cases hash_mem

theorem gets_apply {s : Served} {gs : List (Label × Bool)} {i : Nat} (h : Keeping ctx sturdy s gs) {input : Input}
    (hi : gs[i]? = some (label, stored)) (hinput : sturdy → Sturdy input) :
    (contract ctx.crates.sha256 sturdy label).gets stored e (e.apply ctx.build ctx.crates.sha256 input s.node).1 := by
  cases e with
  | getChunk hash =>
    refine ⟨fun data hdata => get_verified hdata, fun hsturdy hpromised => ?_⟩
    have hack := h.promised _ (List.mem_of_getElem? hi) hash hpromised
    exact (get_sound (h.sound hsturdy)).2 (hinput hsturdy).1 (h.held hsturdy hash hack)
  | putChunk hash data =>
    intro hok
    rcases (Resend.put_cases ctx.crates.sha256 ctx.build input.faults s.node.chunks hash data).2 with
      ⟨err, herr⟩ | ⟨-, -, hsha, -⟩
    · cases herr.symm.trans hok
    · exact hsha
  | _ => exact trivial

/-- The chunk of the request is there once the task has stored it. -/
theorem next_stored {s : Served} {gs : List (Label × Bool)} {i : Nat} (h : Keeping ctx sturdy s gs) {input : Input}
    (howes : (contract ctx.crates.sha256 sturdy label).owes stored e) (hi : gs[i]? = some (label, stored))
    (hsturdy : sturdy) (hinput : Sturdy input)
    (hnext : (contract ctx.crates.sha256 sturdy label).next stored e
      (e.apply ctx.build ctx.crates.sha256 input s.node).1 = true)
    {m : Message} (hm : m ∈ label.request) {hash : Hash} {data : Bytes}
    (hpayload : m.payload = .putChunkRequest hash data) :
    (e.apply ctx.build ctx.crates.sha256 input s.node).2.chunks.exists hash = true := by
  obtain ⟨-, hgrows⟩ := apply_chunks ctx.build (h.sound hsturdy) hinput e
  by_cases hstored : stored = true
  · exact hgrows hash (h.stored hsturdy _ (List.mem_of_getElem? hi) hstored m hm hash data hpayload)
  · cases e with
    | putChunk hash' data' =>
      obtain rfl := howes m hm hash data hpayload
      rcases (Resend.put_cases ctx.crates.sha256 ctx.build input.faults s.node.chunks hash data').2 with
        ⟨err, herr⟩ | ⟨-, -, -, hexists⟩
      · have hnext' : (stored || (s.node.chunks.put ctx.crates.sha256 ctx.build input.faults hash data').1.isOk) =
            true := hnext
        rw [herr, Bool.eq_false_iff.mpr hstored] at hnext'
        cases hnext'
      · exact hexists
    | _ => exact absurd hnext hstored

theorem Keeping.apply {s : Served} {gs : List (Label × Bool)} {i : Nat} (h : Keeping ctx sturdy s gs) {input : Input}
    (howes : (contract ctx.crates.sha256 sturdy label).owes stored e) (hi : gs[i]? = some (label, stored))
    (hinput : sturdy → Sturdy input) :
    Keeping ctx sturdy ((serving ctx).apply label e input s).2 (gs.set i (label,
      (contract ctx.crates.sha256 sturdy label).next stored e ((serving ctx).apply label e input s).1)) where
  log x hx := by
    rcases List.mem_append.mp hx with hx | hx
    · exact h.log x hx
    · exact events_hold howes x hx
  promised t ht hash hhash := by
    change hash ∈ acknowledged (s.log ++ events label e)
    rw [acknowledged_append]
    apply List.mem_append_left
    rcases List.mem_or_eq_of_mem_set ht with ht | rfl
    · exact h.promised t ht hash hhash
    · exact h.promised _ (List.mem_of_getElem? hi) hash hhash
  sound hsturdy := (apply_chunks ctx.build (h.sound hsturdy) (hinput hsturdy) e).1
  held hsturdy hash hhash := by
    have hgrows := (apply_chunks ctx.build (h.sound hsturdy) (hinput hsturdy) e).2
    change hash ∈ acknowledged (s.log ++ events label e) at hhash
    rw [acknowledged_append] at hhash
    rcases List.mem_append.mp hhash with hold | hnew
    · exact hgrows hash (h.held hsturdy hash hold)
    · obtain ⟨hstored, m, hm, data, hpayload⟩ := events_stored howes hnew
      exact hgrows hash (h.stored hsturdy _ (List.mem_of_getElem? hi) hstored m hm hash data hpayload)
  stored hsturdy t ht hstored m hm hash data hpayload := by
    rcases List.mem_or_eq_of_mem_set ht with ht | rfl
    · exact (apply_chunks ctx.build (h.sound hsturdy) (hinput hsturdy) e).2 hash
        (h.stored hsturdy t ht hstored m hm hash data hpayload)
    · exact next_stored h howes hi hsturdy (hinput hsturdy) hstored hm hpayload

theorem Keeping.start {s s' : Served} {gs : List (Label × Bool)} {x : Begin} {t : NodeTask Unit}
    (h : Keeping ctx sturdy s gs) (hx : sturdy → Untouched x)
    (hstart : (serving ctx).start x s = some (s', label, t)) :
    ∃ stored, Keeps (contract ctx.crates.sha256 sturdy label) (fun _ _ => True) stored t ∧
      Keeping ctx sturdy s' (gs ++ [(label, stored)]) := by
  have hmore {node : NodeState} (duty : Option Duty)
      (hchunks : sturdy → node.chunks.dir = s.node.chunks.dir) :
      Keeping ctx sturdy { s with node } (gs ++ [(⟨duty, acknowledged s.log⟩, false)]) := by
    have hexists (hsturdy : sturdy) (hash : Hash) : node.chunks.exists hash = s.node.chunks.exists hash := by
      rw [ChunkStore.exists, ChunkStore.exists, hchunks hsturdy]
    refine ⟨h.log, fun t ht => ?_, fun hsturdy hash => ?_, fun hsturdy hash hhash => ?_, fun hsturdy t ht hstored => ?_⟩
    · rcases List.mem_append.mp ht with ht | ht
      · exact h.promised t ht
      · rw [List.mem_singleton.mp ht]
        exact fun _ hhash => hhash
    · change ∀ f ∈ node.chunks.dir.lookup hash, _
      rw [hchunks hsturdy]
      exact h.sound hsturdy hash
    · exact (hexists hsturdy hash).trans (h.held hsturdy hash hhash)
    · rcases List.mem_append.mp ht with ht | ht
      · intro m hm hash data hpayload
        exact (hexists hsturdy hash).trans (h.stored hsturdy t ht hstored m hm hash data hpayload)
      · rw [List.mem_singleton.mp ht] at hstored
        cases hstored
  cases x with
  | duty duty =>
    cases hstart
    exact ⟨false, perform_keeps ctx duty _, hmore (some duty) fun _ => rfl⟩
  | restart now =>
    cases hstart
    exact ⟨false, trivial, hmore none fun _ => rfl⟩
  | disk dir =>
    cases hstart
    exact ⟨false, trivial, hmore none fun hsturdy => absurd (hx hsturdy) id⟩

end

theorem run_keeping (ctx : HandlerContext) (sturdy : Prop) (node : NodeState)
    (hsound : sturdy → Sound ctx.crates.sha256 node.chunks) {as : List (Action Begin Input)}
    (hok : Meets (serving ctx).step
      (Allows (fun x _ => sturdy → Untouched x) fun _ _ input _ => sturdy → Sturdy input) (idle node) as) :
    ∀ e ∈ (run (serving ctx).step (idle node) as).state.log, Holds ctx.crates.sha256 sturdy e := by
  have hfresh : ∃ gs, Kept (fun label => contract ctx.crates.sha256 sturdy label) (idle node) gs ∧
      Keeping ctx sturdy (idle node).state gs := by
    refine ⟨[], .nil, ?_, ?_, hsound, ?_, ?_⟩
    · rintro e ⟨⟩
    · rintro t ⟨⟩
    · rintro _ hash ⟨⟩
    · rintro _ t ⟨⟩
  obtain ⟨gs, -, h⟩ := run_kept (J := Keeping ctx sturdy) (fun x s s' label t gs hx h hstart => h.start hx hstart)
    (fun label stored e input s gs i hinput howes hi h => ⟨gets_apply h hi hinput, h.apply howes hi hinput⟩)
    hfresh hok
  exact h.log

def getSeven : Message :=
  messageOf key1 8 (.getChunkRequest (Sha256.digest [7]))
    [243, 169, 4, 35, 104, 50, 30, 154, 130, 242, 45, 205, 127, 153, 220, 6, 32, 174, 226, 151,
     186, 52, 49, 136, 223, 59, 102, 9, 97, 195, 200, 187, 179, 232, 165, 36, 200, 78, 12, 202,
     68, 124, 100, 12, 232, 238, 212, 118, 30, 94, 142, 107, 76, 70, 220, 181, 116, 93, 46, 180,
     242, 105, 202, 14]

def getCrates : Crates := .knowing
  [⟨Bytes32.fill 1, key1, [signedPart putSeven, signedPart getSeven]⟩, ⟨Bytes32.fill 2, key2, []⟩] []

/-- The chunk is stored, the node is spawned again, and the chunk is asked for. -/
def storedThenAsked : List (Action Begin Input) :=
  .start (.duty (.inbound (.v4 127 0 0 1 4434) putSeven)) :: List.replicate 8 (.run 0 quietInput) ++
    .start (.restart 5) :: .start (.duty (.inbound (.v4 127 0 0 1 4434) getSeven)) ::
      List.replicate 8 (.run 2 quietInput)

theorem freshState_sound : Sound Sha256.digest freshState.chunks := by
  rintro hash f ⟨⟩

end TesserasDht.ServedChunks
