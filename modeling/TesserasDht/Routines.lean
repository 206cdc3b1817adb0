import TesserasDht.Admission
import TesserasDht.Code.Operations

/-!
# The operations of the other tasks

Which operations the tasks of a node perform that do not handle a message. A lemma holds for every set
of operations that has those which the task needs.
-/

open Lib.Tasks

namespace TesserasDht.Routines

open Admission

/-- What it takes to send requests, directly and through relays. -/
structure Talks (P : Op → Prop) : Prop where
  random : P .random
  send : ∀ out, P (.send out)
  await : ∀ request, P (.await request)
  closestNodes : ∀ target count, P (.closestNodes target count)
  externalAddr : P .externalAddr

/-- What it takes to keep the routing table up to date besides. -/
structure Greets (ctx : HandlerContext) (P : Op → Prop) : Prop extends Talks P where
  now : P .now
  insert : ∀ now id key addrs, P (.insert (NodeInfo.new now id key addrs))
  recordFailure : ∀ id, P (.recordFailure id ctx.config.maxFailures)
  recordFailureByAddr : ∀ addr, P (.recordFailureByAddr addr ctx.config.maxFailures)
  setExternalAddr : ∀ addr, P (.setExternalAddr addr)

/-! ## Requests and relays -/

section

variable (ctx : HandlerContext) {P : Op → Prop} (hP : Talks P)

include hP

theorem newMessage_performs (payload : Payload) : Performs P (ctx.newMessage payload) :=
  ownMessage_performs ctx hP.random _ _

omit ctx in
theorem request_performs {origin : Origin} {addrs : List SocketAddr} {msg : Message} :
    Performs P (sendRequestAny origin addrs msg) :=
  sendRequestAny_performs (hP.send _) hP.await

theorem askRelay_performs (target : NodeId) (inner : Bytes) (candidate : NodeInfo) :
    Performs P (ctx.askRelay target inner candidate) := by
  apply (newMessage_performs ctx hP _).bind
  intro msg
  apply (request_performs hP).bind
  intro r
  cases r with
  | none => exact performs_pure _
  | some resp =>
    dsimp only
    split
    · exact performs_pure _
    · exact performs_pure _

theorem queryRelays_performs (target : NodeId) (inner : Bytes) (candidates : List NodeInfo) :
    Performs P (ctx.queryRelays target inner candidates) := by
  induction candidates with
  | nil => exact performs_pure _
  | cons candidate rest ih =>
    unfold HandlerContext.queryRelays
    split
    · apply (askRelay_performs ctx hP target inner candidate).bind
      intro r
      cases r with
      | none => exact ih
      | some payload =>
        dsimp only
        split
        · exact performs_pure _
        · exact ih
    · exact ih

theorem sendViaRelays_performs (target : NodeId) (inner : Bytes) (candidates : List NodeInfo) :
    Performs P (ctx.sendViaRelays target inner candidates) := by
  induction candidates with
  | nil => exact performs_pure _
  | cons candidate rest ih =>
    unfold HandlerContext.sendViaRelays
    split
    · apply (askRelay_performs ctx hP target inner candidate).bind
      intro r
      cases r with
      | none => exact ih
      | some payload => exact performs_pure _
    · exact ih

theorem sendViaRelay_performs (target : NodeId) (msg : Message) :
    Performs P (ctx.sendViaRelay target msg) := by
  refine ⟨hP.closestNodes _ _, fun candidates _ => ?_⟩
  cases ctx.crates.toBytes msg with
  | none => exact performs_pure _
  | some inner => exact sendViaRelays_performs ctx hP target inner candidates

theorem connectViaRelays_performs (target : NodeId) (inner : Bytes) (candidates : List NodeInfo) :
    Performs P (ctx.connectViaRelays target inner candidates) := by
  induction candidates with
  | nil => exact performs_pure _
  | cons candidate rest ih =>
    unfold HandlerContext.connectViaRelays
    split
    · apply (askRelay_performs ctx hP target inner candidate).bind
      intro r
      cases r with
      | none => exact ih
      | some payload =>
        dsimp only
        split
        · exact performs_pure _
        · exact ih
    · exact ih

theorem requestReverseConnection_performs (target : NodeId) :
    Performs P (ctx.requestReverseConnection target) := by
  refine ⟨hP.externalAddr, fun external _ => ?_⟩
  apply (newMessage_performs ctx hP _).bind
  intro msg
  cases ctx.crates.toBytes msg with
  | none => exact performs_pure _
  | some inner =>
    exact ⟨hP.closestNodes _ _, fun _ _ => connectViaRelays_performs ctx hP target inner _⟩

theorem sendWithNatTraversal_performs (addrs : List SocketAddr) (target : NodeId) (msg : Message) :
    Performs P (ctx.sendWithNatTraversal addrs target msg) := by
  apply (request_performs hP).bind
  intro r
  cases r with
  | some resp => exact performs_pure _
  | none =>
    apply (requestReverseConnection_performs ctx hP target).bind
    intro connected
    cases connected with
    | false => exact sendViaRelay_performs ctx hP target msg
    | true =>
      apply (request_performs hP).bind
      intro r
      cases r with
      | some resp => exact performs_pure _
      | none => exact sendViaRelay_performs ctx hP target msg

theorem sendEach_performs (payload : Payload) (addrs : List SocketAddr) :
    Performs P (ctx.sendEach payload addrs) := by
  induction addrs with
  | nil => exact performs_pure _
  | cons addr rest ih =>
    apply (newMessage_performs ctx hP _).bind
    intro msg
    exact ⟨hP.send _, fun _ _ => ih.bind fun _ => performs_pure _⟩

omit ctx in
theorem awaitEach_performs (sent : List (SocketAddr × Nat)) :
    Performs P (HandlerContext.awaitEach sent) := by
  induction sent with
  | nil => exact performs_pure _
  | cons x rest ih => exact ⟨hP.await _, fun _ _ => ih.bind fun _ => performs_pure _⟩

theorem sendToPeers_performs (payload : Payload) (peers : List NodeInfo) :
    Performs P (ctx.sendToPeers payload peers) := by
  induction peers with
  | nil => exact performs_pure _
  | cons node rest ih =>
    apply (newMessage_performs ctx hP _).bind
    intro msg
    exact ⟨hP.send _, fun _ _ => ih.bind fun _ => performs_pure _⟩

omit ctx in
theorem awaitPeers_performs (sent : List (NodeId × Nat)) :
    Performs P (HandlerContext.awaitPeers sent) := by
  induction sent with
  | nil => exact performs_pure _
  | cons x rest ih => exact ⟨hP.await _, fun _ _ => ih.bind fun _ => performs_pure _⟩

end

/-! ## Lookups, bootstrap and provider queries -/

theorem insertAll_performs {P : Op → Prop} {nodes : List NodeInfo} (h : ∀ n ∈ nodes, P (.insert n)) :
    Performs P (HandlerContext.insertAll nodes) := by
  induction nodes with
  | nil => exact performs_pure _
  | cons node rest ih =>
    refine ⟨h node List.mem_cons_self, fun r _ => ?_⟩
    cases r with
    | error e => exact performs_pure _
    | ok r => exact ih fun n hn => h n (List.mem_cons_of_mem _ hn)

section

variable (ctx : HandlerContext) {P : Op → Prop} (hP : Greets ctx P)

include hP

theorem insertReturned_performs (now : Nat) (nodes : List NodeInfoSerde) :
    Performs P (HandlerContext.insertAll (nodes.map (NodeInfoSerde.toInfo now))) := by
  apply insertAll_performs
  intro n hn
  obtain ⟨p, -, rfl⟩ := List.mem_map.mp hn
  exact hP.insert _ _ _ _

theorem queryPeer_performs (target peerId : NodeId) (addrs : List SocketAddr) :
    Performs P (ctx.queryPeer target peerId addrs) := by
  have hresponse : Performs P (ctx.queryResponse target peerId addrs) := by
    apply (newMessage_performs ctx hP.toTalks _).bind
    intro msg
    apply (request_performs hP.toTalks).bind
    intro r
    cases r with
    | some resp => exact performs_pure _
    | none =>
      refine ⟨hP.closestNodes _ _, fun candidates _ => ?_⟩
      cases ctx.crates.toBytes msg with
      | none => exact performs_pure _
      | some inner => exact queryRelays_performs ctx hP.toTalks peerId inner candidates
  apply hresponse.bind
  intro r
  cases r with
  | none => exact ⟨hP.recordFailure _, fun _ _ => performs_pure _⟩
  | some resp =>
    refine ⟨hP.now, fun now _ => ⟨hP.insert _ _ _ _, fun r _ => ?_⟩⟩
    cases r with
    | error e => exact performs_pure _
    | ok r =>
      dsimp only
      split
      · apply (insertReturned_performs ctx hP now _).bind
        intro r
        cases r with
        | error e => exact performs_pure _
        | ok u => exact performs_pure _
      · exact performs_pure _

theorem greetEach_performs (results : List (SocketAddr × Option Message)) :
    Performs P (ctx.greetEach results) := by
  induction results with
  | nil => exact performs_pure _
  | cons x rest ih =>
    obtain ⟨addr, resp⟩ := x
    cases resp with
    | none => exact ⟨hP.recordFailureByAddr _, fun _ _ => ih⟩
    | some resp =>
      unfold HandlerContext.greetEach
      dsimp only
      split
      on_goal 1 => refine ⟨hP.setExternalAddr _, fun _ _ => ?_⟩
      -- both arms go on in the same way
      all_goals
        refine ⟨hP.now, fun now _ => ⟨hP.insert _ _ _ _, fun r _ => ?_⟩⟩
        cases r with
        | error e => exact performs_pure _
        | ok r => exact ih

theorem insertFound_performs (results : List (SocketAddr × Option Message)) :
    Performs P (HandlerContext.insertFound results) := by
  induction results with
  | nil => exact performs_pure _
  | cons x rest ih =>
    unfold HandlerContext.insertFound
    split
    · refine ⟨hP.now, fun now _ => ?_⟩
      apply (insertReturned_performs ctx hP now _).bind
      intro r
      cases r with
      | error e => exact performs_pure _
      | ok u => exact ih
    · exact ih

theorem doBootstrap_performs (addrs : List SocketAddr) : Performs P (ctx.doBootstrap addrs) := by
  apply (sendEach_performs ctx hP.toTalks _ addrs).bind
  intro sent
  apply (awaitEach_performs hP.toTalks sent).bind
  intro results
  apply (greetEach_performs ctx hP results).bind
  intro r
  cases r with
  | error e => exact performs_pure _
  | ok u =>
    dsimp only
    split
    · apply (sendEach_performs ctx hP.toTalks _ _).bind
      intro asked
      apply (awaitEach_performs hP.toTalks asked).bind
      intro found
      exact (insertFound_performs ctx hP found).bind fun _ => performs_pure _
    · exact performs_pure _

theorem askProviders_performs (key : Hash) (queries : List (NodeId × List SocketAddr))
    (s : ProviderSearch) : Performs P (ctx.askProviders key queries s) := by
  induction queries generalizing s with
  | nil => exact performs_pure _
  | cons q rest ih =>
    obtain ⟨peerId, addrs⟩ := q
    apply (newMessage_performs ctx hP.toTalks _).bind
    intro msg
    apply (sendWithNatTraversal_performs ctx hP.toTalks addrs peerId msg).bind
    intro r
    cases r with
    | none => exact ⟨hP.recordFailure _, fun _ _ => ih s⟩
    | some resp =>
      dsimp only
      split
      · exact ⟨hP.now, fun _ _ => ih _⟩
      · exact ih s

theorem providerRounds_performs (key : Hash) (rounds : Nat) (s : ProviderSearch) :
    Performs P (ctx.providerRounds key rounds s) := by
  induction rounds generalizing s with
  | zero => exact performs_pure _
  | succ rounds ih =>
    unfold HandlerContext.providerRounds
    dsimp only
    split
    · exact performs_pure _
    · apply (askProviders_performs ctx hP key _ _).bind
      intro s
      split
      · exact ih _
      · exact performs_pure _

theorem doGetProviders_performs (hproviders : ∀ key, P (.getProviders key)) (key : Hash) :
    Performs P (ctx.doGetProviders key) :=
  ⟨hproviders key, fun _ _ => ⟨hP.closestNodes _ _, fun _ _ =>
    (providerRounds_performs ctx hP key 10 _).bind fun _ => performs_pure _⟩⟩

/-! ## Stores -/

theorem settleEach_performs (results : List (NodeId × Option Message)) :
    Performs P (ctx.settleEach results) := by
  induction results with
  | nil => exact performs_pure _
  | cons x rest ih =>
    obtain ⟨peerId, resp⟩ := x
    cases resp with
    | some resp => exact ih
    | none => exact ⟨hP.recordFailure _, fun _ _ => ih⟩

variable (hput : ∀ hash data, P (.putChunk hash data))
  (hprovider : ∀ key id pk addrs ttl, P (.addProvider key id pk addrs ttl))

theorem announceEach_performs (announceAddr : SocketAddr) (chunks : List (Hash × Bytes)) :
    Performs P (ctx.announceEach announceAddr chunks) := by
  induction chunks with
  | nil => exact performs_pure _
  | cons chunk rest ih =>
    refine ⟨hP.closestNodes _ _, fun closest _ => ?_⟩
    exact (sendToPeers_performs ctx hP.toTalks _ _).bind fun sent => ih.bind fun _ => performs_pure _

include hprovider in
theorem distributeEach_performs (announceAddr : SocketAddr) (chunks : List (Hash × Bytes)) :
    Performs P (ctx.distributeEach announceAddr chunks) := by
  induction chunks with
  | nil => exact performs_pure _
  | cons chunk rest ih =>
    refine ⟨hP.closestNodes _ _, fun closest _ => ?_⟩
    apply (sendToPeers_performs ctx hP.toTalks _ _).bind
    intro sent
    exact ⟨hprovider _ _ _ _ _, fun _ _ => ih.bind fun _ => performs_pure _⟩

omit ctx hP in
include hput in
theorem putEach_performs (chunks : List (Hash × Bytes)) : Performs P (HandlerContext.putEach chunks) := by
  induction chunks with
  | nil => exact performs_pure _
  | cons chunk rest ih =>
    refine ⟨hput _ _, fun r _ => ?_⟩
    cases r with
    | error e => exact performs_pure _
    | ok u => exact ih

include hput hprovider in
theorem distributeBlocks_performs (announceAddr : SocketAddr) (blocks : List (List (Hash × Bytes))) :
    Performs P (ctx.distributeBlocks announceAddr blocks) := by
  induction blocks with
  | nil => exact performs_pure _
  | cons chunks rest ih =>
    apply (putEach_performs hput chunks).bind
    intro r
    cases r with
    | error e => exact performs_pure _
    | ok u =>
      apply (distributeEach_performs ctx hP hprovider announceAddr chunks).bind
      intro puts
      apply (announceEach_performs ctx hP announceAddr chunks).bind
      intro announces
      apply ih.bind
      intro r
      cases r with
      | error e => exact performs_pure _
      | ok sent => exact performs_pure _

include hput hprovider in
theorem distributeTessera_performs (blocks : List (List (Hash × Bytes))) (manifest : Hash × Bytes) :
    Performs P (ctx.distributeTessera blocks manifest) := by
  refine ⟨hP.externalAddr, fun external _ => ?_⟩
  apply (distributeBlocks_performs ctx hP hput hprovider _ blocks).bind
  intro r
  cases r with
  | error e => exact performs_pure _
  | ok sent =>
    apply (awaitPeers_performs hP.toTalks sent).bind
    intro results
    apply (settleEach_performs ctx hP results).bind
    intro _
    refine ⟨hput _ _, fun r _ => ?_⟩
    cases r with
    | error e => exact performs_pure _
    | ok u =>
      refine ⟨hP.closestNodes _ _, fun closest _ => ?_⟩
      apply (sendToPeers_performs ctx hP.toTalks _ _).bind
      intro puts
      apply (sendToPeers_performs ctx hP.toTalks _ _).bind
      intro announces
      exact (awaitPeers_performs hP.toTalks _).bind fun _ => performs_pure _

end

end TesserasDht.Routines
