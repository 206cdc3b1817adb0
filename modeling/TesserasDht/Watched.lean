import TesserasDht.Lib.Observers
import TesserasDht.Relay
import TesserasDht.Routines

/-!
# Runs under watch

A contract for the tasks of a network may have a ghost state of its own, beside the requests that a
task made. The rule says what a run keeps, and the lemmas which tasks leave such a ghost state alone.
-/

open Lib.Tasks Lib.Runs

namespace TesserasDht.Watched

open Admission Conduct Peers Relay Routines

/-- What a task owes, gets and remembers beside its requests. -/
structure Extra (δ : Type) where
  owes : δ → Op → Prop
  gets : (e : Op) → e.Result → Prop
  next : δ → (e : Op) → e.Result → δ

def Extra.contract {δ : Type} (x : Extra δ) : Contract (Requests × δ) Op Op.Result where
  owes g e := x.owes g.2 e
  gets g e r := anything.contract.gets g.1 e r ∧ x.gets e r
  next g e r := (anything.contract.next g.1 e r, x.next g.2 e r)

/-! ## Tasks that leave the ghost state alone -/

section

variable {δ α : Type} {x : Extra δ} {P : Op → Prop} {g : Requests} {d : δ} {t : NodeTask α}

theorem keeps_of_performs (h : Performs P t) (howes : ∀ e, P e → x.owes d e)
    (hnext : ∀ e r, P e → x.next d e r = d) : Keeps x.contract (fun p _ => p.2 = d) (g, d) t := by
  induction t generalizing g with
  | ret a => rfl
  | op e k ih =>
    rw [performs_op] at h
    refine ⟨howes e h.1, fun r _ => ?_⟩
    have hstep : x.contract.next (g, d) e r = (anything.contract.next g e r, d) :=
      Prod.ext rfl (hnext e r h.1)
    rw [hstep]
    exact ih r (h.2 r)

/-- The operation sends no message of another node. -/
def OwnSend : Op → Prop
  | .send out => out.origin = .own
  | _ => True

theorem keeps_of_own {Q : Requests → α → Prop} (hown : Does ownOnly g t Q) (hP : Performs P t)
    (howes : ∀ e, P e → OwnSend e → x.owes d e) (hnext : ∀ e r, P e → OwnSend e → x.next d e r = d) :
    Keeps x.contract (fun p _ => p.2 = d) (g, d) t := by
  have hsend : ∀ (g : Requests) e, ownOnly.contract.owes g e ∧ P e → P e ∧ OwnSend e := by
    rintro g e ⟨howns, hPe⟩
    refine ⟨hPe, ?_⟩
    cases e with
    | send out => exact howns
    | _ => trivial
  have hlift : Keeps x.contract (fun p a => Q p.1 a ∧ p.2 = d) (g, d) t := by
    refine Keeps.lift (I := fun d' => d' = d) ?_ ?_ ?_ (hown.and_performs hP) rfl
    · rintro g d' e he rfl
      exact howes e (hsend g e he).1 (hsend g e he).2
    · exact fun g d' e r hr => hr.1
    · rintro g d' e r he rfl
      exact ⟨by cases e <;> rfl, hnext e r (hsend g e he).1 (hsend g e he).2⟩
  exact hlift.mono fun _ _ h => h.2

end

/-! ## The operations of most tasks -/

/-- Drawing a number, and sending a message with this payload. -/
def Sends (payload : Payload) : Op → Prop
  | .random => True
  | .send out => out.msg.payload = payload
  | _ => False

theorem sendToPeers_sends (ctx : HandlerContext) (payload : Payload) (peers : List NodeInfo) :
    Performs (Sends payload) (ctx.sendToPeers payload peers) := by
  induction peers with
  | nil => exact performs_pure _
  | cons node rest ih =>
    refine ⟨trivial, fun msgId _ => ⟨?_, fun request _ => ?_⟩⟩
    · exact (sign_fields ctx.crates ctx.secret _).2.2.1
    · exact ih.bind fun _ => performs_pure _

/-- What it takes to take the sender of a message into the routing table. -/
structure Admits (ctx : HandlerContext) (P : Op → Prop) : Prop extends Greets ctx P where
  evictAndInsert : ∀ id node, P (.evictAndInsert id node)
  spawnReplicate : ∀ node, P (.spawnReplicate node)

theorem insertSender_performs (ctx : HandlerContext) {P : Op → Prop} (hP : Admits ctx P) (fromAddr : SocketAddr)
    (msg : Message) : Performs P (ctx.insertSender fromAddr msg) := by
  unfold HandlerContext.insertSender
  simp only [perform_bind, performs_op]
  refine ⟨hP.now, fun now => ⟨hP.insert _ _ _ _, fun r => ?_⟩⟩
  have hevict (lrs : NodeId) (node : NodeInfo) : Performs P (ctx.evictUnresponsive lrs node) := by
    unfold HandlerContext.evictUnresponsive
    rw [perform_bind, performs_op]
    refine ⟨hP.closestNodes _ _, fun closest => ?_⟩
    split
    · exact performs_pure _
    · apply (ownMessage_performs ctx hP.random _ _).bind
      intro ping
      apply (request_performs hP.toTalks).bind
      intro r
      cases r with
      | some _ => exact performs_pure _
      | none => exact ⟨hP.evictAndInsert _ _, fun _ _ => performs_pure _⟩
  split
  · exact performs_pure _
  · split
    · exact ⟨hP.spawnReplicate _, fun _ _ => performs_pure _⟩
    · exact performs_pure _
  · exact (hevict _ _).bind fun _ => performs_pure _
  · exact performs_pure _

/-- What it takes besides to replicate chunks, to save the table and to clean up. -/
structure Serves (ctx : HandlerContext) (P : Op → Prop) : Prop extends Greets ctx P where
  evictAndInsert : ∀ id node, P (.evictAndInsert id node)
  spawnReplicate : ∀ node, P (.spawnReplicate node)
  getOwnProviders : ∀ id, P (.getOwnProviders id)
  getChunk : ∀ hash, P (.getChunk hash)
  allNodesSerde : P .allNodesSerde
  savePeersBatch : ∀ peers, P (.savePeersBatch peers)
  cleanupLimiters : P (.cleanupLimiters (300 * 10 ^ 9))
  retainCounts : ∀ known, P (.retainCounts known)
  getProviders : ∀ key, P (.getProviders key)
  addProvider : ∀ key id pk addrs ttl, P (.addProvider key id pk addrs ttl)
  sendResponse : ∀ addr msg, P (.sendResponse addr msg)

theorem Serves.admits {ctx : HandlerContext} {P : Op → Prop} (hP : Serves ctx P) : Admits ctx P :=
  ⟨hP.toGreets, hP.evictAndInsert, hP.spawnReplicate⟩

section

variable (ctx : HandlerContext) {P : Op → Prop} (hP : Serves ctx P)

include hP

theorem replicate_performs (node : NodeInfo) : Performs P (ctx.replicateChunksToNode node) := by
  refine (replicateChunksToNode_performs ctx node).mono fun e he => ?_
  cases e with
  | random => exact hP.random
  | getOwnProviders id => exact hP.getOwnProviders _
  | closestNodes target count => exact hP.closestNodes _ _
  | getChunk hash => exact hP.getChunk _
  | send out => exact hP.send _
  | _ => exact he.elim

/-- A request that neither stores a chunk nor asks for a relay. -/
theorem respond_performs (fromAddr : SocketAddr) {msg : Message}
    (hput : ∀ hash data, msg.payload ≠ .putChunkRequest hash data)
    (hrelay : ∀ targetId payload hops, msg.payload ≠ .relayRequest targetId payload hops) :
    Performs P (ctx.respond fromAddr msg) := by
  unfold HandlerContext.respond
  split
  · exact performs_pure _
  · exact ⟨hP.closestNodes _ _, fun _ _ => performs_pure _⟩
  · exact ⟨hP.getProviders _, fun _ _ => ⟨hP.closestNodes _ _, fun _ _ => performs_pure _⟩⟩
  · exact ⟨hP.addProvider _ _ _ _ _, fun _ _ => performs_pure _⟩
  · refine Keeps.perform (hP.getChunk _) fun r _ => ?_
    split
    · exact performs_pure _
    · exact performs_pure _
  next hash data h => exact absurd h (hput hash data)
  next targetId payload hops h => exact absurd h (hrelay targetId payload hops)
  · exact (connectBack_performs ctx hP.random hP.send hP.await _).bind fun _ => performs_pure _
  · exact performs_pure _

/-- The handler, if what it answers is of that kind. -/
theorem handle_performs {fromAddr : SocketAddr} {msg : Message}
    (hrespond : Performs P (ctx.respond fromAddr msg)) :
    Performs P (ctx.handleInboundMessage fromAddr msg) := by
  have hanswer : Performs P (ctx.answer fromAddr msg) := by
    apply hrespond.bind
    intro r
    cases r with
    | none => exact performs_pure _
    | some payload => exact ⟨hP.sendResponse _ _, fun _ _ => trivial⟩
  unfold HandlerContext.handleInboundMessage
  split
  · exact performs_pure _
  · split
    · exact hanswer
    · apply (insertSender_performs ctx hP.admits fromAddr msg).bind
      intro r
      cases r with
      | error e => exact performs_pure _
      | ok u => exact hanswer

variable {ν : Type}

/-- The tasks that do not handle a message. -/
theorem job_performs {job : Job ν} (hjob : ∀ fromAddr msg via, job ≠ .handle fromAddr msg via) :
    Performs P (Network.task ctx job) := by
  cases job with
  | handle fromAddr msg via => exact absurd rfl (hjob fromAddr msg via)
  | replicate newNode => exact replicate_performs ctx hP newNode
  | query target peerId addrs =>
    exact (queryPeer_performs ctx hP.toGreets target peerId addrs).bind fun _ => performs_pure _
  | bootstrap addrs => exact doBootstrap_performs ctx hP.toGreets addrs
  | request addrs target payload =>
    apply (newMessage_performs ctx hP.toTalks payload).bind
    intro msg
    exact (sendWithNatTraversal_performs ctx hP.toTalks addrs target msg).bind fun _ => performs_pure _
  | save => exact ⟨hP.allNodesSerde, fun _ _ => ⟨hP.savePeersBatch _, fun _ _ => performs_pure _⟩⟩
  | cleanup =>
    exact ⟨hP.cleanupLimiters, fun _ _ => ⟨hP.allNodesSerde, fun _ _ =>
      ⟨hP.retainCounts _, fun _ _ => performs_pure _⟩⟩⟩
  | restart => exact performs_pure _

end

section

variable {ν : Type} (ctx : HandlerContext)

theorem job_does {job : Job ν} (hjob : ∀ fromAddr msg via, job ≠ .handle fromAddr msg via) (g : Requests) :
    Does ownOnly g (Network.task ctx job) fun _ _ => True := by
  cases job with
  | handle fromAddr msg via => exact absurd rfl (hjob fromAddr msg via)
  | replicate newNode => exact replicateChunksToNode_does ctx (own_sends ctx) newNode g
  | query target peerId addrs =>
    exact (queryPeer_does ctx (own_sends ctx) target peerId addrs
      (fun _ _ => ⟨fun _ => trivial, fun _ _ _ _ _ => trivial⟩) g).bind fun _ _ _ => trivial
  | bootstrap addrs =>
    exact doBootstrap_does ctx (own_sends ctx) (fun _ _ _ _ => trivial)
      (fun _ _ _ _ _ _ _ _ => trivial) addrs g
  | request addrs target payload =>
    apply (ownMessage_does ctx _ _ g).bind
    rintro g' msg ⟨rfl, hmsg⟩
    exact (sendWithNatTraversal_does ctx (own_sends ctx) hmsg addrs target g').bind fun _ _ _ => trivial
  | save => exact saveRoutingTable_does g
  | cleanup => exact cleanupTick_does g
  | restart => exact trivial

theorem insertSender_own (fromAddr : SocketAddr) (msg : Message) (g : Requests) :
    Does ownOnly g (ctx.insertSender fromAddr msg) fun _ _ => True := by
  have hsender : SenderGood ownOnly [fromAddr] msg := fun _ => trivial
  exact insertSender_does ctx (own_sends ctx) hsender g

/-- A handler of any other request forwards nothing. -/
theorem handle_does {msg : Message}
    (hrelay : ∀ targetId payload hops, msg.payload ≠ .relayRequest targetId payload hops)
    (fromAddr : SocketAddr) (g : Requests) :
    Does ownOnly g (ctx.handleInboundMessage fromAddr msg) fun _ _ => True := by
  have hforward : ∀ out, Forwards ownOnly msg out → ownOnly.Sends out := by
    intro out hout
    obtain ⟨targetId, payload, hops, node, hmsg, -⟩ := hout.target
    exact absurd hmsg (hrelay targetId payload hops)
  exact handleInboundMessage_does ctx (own_sends ctx) fromAddr msg hforward (fun _ _ _ _ => trivial)
    (fun _ _ _ => trivial) g

end

/-! ## The rule -/

section

variable {ν ω δ : Type} [DecidableEq ν] {net : Network ν}
  {o : Observer (NetState ν) (Label ν) Input (Start ν) Op Op.Result ω} {x : Label ν → Extra δ}
  {begin : Label ν → δ} {J : NetState ν × ω → List (Label ν × δ) → Prop}
  {okStart : Start ν → NetState ν × ω → Prop} {okRun : Label ν → Op → Input → NetState ν × ω → Prop}

/-- The nodes that have not begun, under watch. -/
def watched (nodes : ν → NodeState) (w : ω) : Pool (NetState ν × ω) (Label ν) Op Op.Result :=
  ⟨((Network.fresh nodes).state, w), []⟩

theorem nodeGood_any (s : NodeState) : NodeGood (fun _ => True) s :=
  ⟨fun _ => ⟨fun _ _ => trivial, fun _ _ => trivial⟩, fun p _ =>
    ⟨NodeInfo.new 0 (NodeId.fromBytes p.nodeId) p.publicKey p.addresses, trivial, rfl⟩⟩

/-- Each task keeps its contract, and what begins and what is performed keeps `J`. Then `J` holds after
every run, for some ghost states of the tasks. -/
theorem run_watched
    (htask : ∀ label : Label ν, Keeps (x label).contract (fun _ _ => True) (fun _ => none, begin label)
      (Network.task (net.ctx label.node) label.job))
    (hstart : ∀ y s w s' label t gs, okStart y (s, w) → J (s, w) gs →
      net.start y s = some (s', label, t) → J (s', o.begins y s w) (gs ++ [(label, begin label)]))
    (hrun : ∀ label d e input s w gs i, okRun label e input (s, w) → (x label).owes d e →
      gs[i]? = some (label, d) → J (s, w) gs →
      (x label).gets e (net.apply label e input s).1 ∧
        J ((net.apply label e input s).2, o.sees label e input (net.apply label e input s).1 s w)
          (gs.set i (label, (x label).next d e (net.apply label e input s).1)))
    (nodes : ν → NodeState) {w : ω} (hinit : J ((Network.fresh nodes).state, w) [])
    {as : List (Action (Start ν) Input)}
    (hok : Meets (net.system.observed o).step (Allows okStart okRun) (watched nodes w) as) :
    ∃ gs, J (run (net.system.observed o).step (watched nodes w) as).state gs := by
  have hfresh : ∃ gs : List (Label ν × Requests × δ), Kept (fun label => (x label).contract)
      (watched nodes w) gs ∧
      (Sound (fun _ _ => True) (watched nodes w).state.1 (gs.map fun t => (t.1, t.2.1)) ∧
        J (watched nodes w).state (gs.map fun t => (t.1, t.2.2))) :=
    ⟨[], .nil, ⟨fun _ => nodeGood_any _, fun t ht => absurd ht List.not_mem_nil⟩, hinit⟩
  suffices hkept : ∃ gs : List (Label ν × Requests × δ), Kept (fun label => (x label).contract)
      (run (net.system.observed o).step (watched nodes w) as) gs ∧
      (Sound (fun _ _ => True) (run (net.system.observed o).step (watched nodes w) as).state.1
        (gs.map fun t => (t.1, t.2.1)) ∧
        J (run (net.system.observed o).step (watched nodes w) as).state
          (gs.map fun t => (t.1, t.2.2))) by
    obtain ⟨gs, -, -, hJ⟩ := hkept
    exact ⟨_, hJ⟩
  refine run_kept (J := fun s (gs : List (Label ν × Requests × δ)) =>
    Sound (fun _ _ => True) s.1 (gs.map fun t => (t.1, t.2.1)) ∧ J s (gs.map fun t => (t.1, t.2.2)))
    ?_ ?_ hfresh hok
  · rintro y ⟨s, w⟩ s' label t gs hy ⟨hsound, hJ⟩ hx
    obtain ⟨⟨s'', label', t'⟩, hx', heq⟩ := Option.map_eq_some_iff.mp hx
    cases heq
    refine ⟨(fun _ => none, begin label), ?_, ?_, ?_⟩
    · obtain ⟨-, -, -, rfl⟩ := start_some net hx'
      exact htask label
    · rw [List.map_append]
      exact start_sound net (fun _ => by intro _ _ _ _ _ _ _ _ _; trivial) hsound hx'
    · rw [List.map_append]
      exact hstart y s w s'' label t _ hy hJ hx'
  · rintro label ⟨g, d⟩ e input ⟨s, w⟩ gs i hlabel howes hi ⟨hsound, hJ⟩
    have hnodes : (gs.map fun t => (t.1, t.2.1))[i]? = some (label, g) := by
      rw [List.getElem?_map, hi]
      rfl
    have hextra : (gs.map fun t => (t.1, t.2.2))[i]? = some (label, d) := by
      rw [List.getElem?_map, hi]
      rfl
    obtain ⟨hgets, hsound'⟩ := apply_sound net (fun _ => by intro _ _ _ _ _ _ _ _ _; trivial)
      (T := fun _ => anything) (fun _ => rfl) input (owes_anything g e) hnodes hsound
      (fun _ _ _ _ _ _ => trivial)
    obtain ⟨hgets', hJ'⟩ := hrun label d e input s w _ i hlabel howes hextra hJ
    refine ⟨⟨hgets, hgets'⟩, ?_, ?_⟩
    · rw [List.map_set]
      exact hsound'
    · rw [List.map_set]
      exact hJ'

end

end TesserasDht.Watched
