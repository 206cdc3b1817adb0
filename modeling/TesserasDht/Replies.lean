import TesserasDht.Conduct
import TesserasDht.Watched

/-!
# One response to each request

A node answers a request at most once, to the address that it came from, under its message id and with a
response of its kind. What it does not take in it does not answer, and neither a response.
-/

open Lib.Runs Lib.Tasks

namespace TesserasDht.Replies

open Admission Routines Watched

/-! ## A node that counts its tasks -/

/-- What begins: a duty, or a new process. -/
inductive Begin
  | duty (duty : Duty)
  | restart (now : Nat)

structure Label where
  serial : Nat
  duty : Option Duty

inductive Event
  /-- An inbound message, whether it is taken in or not. -/
  | came (serial : Nat) (fromAddr : SocketAddr) (msg : Message)
  | answered (serial : Nat) (addr : SocketAddr) (response : Message)

namespace Event

def cameAs : Event → Option Nat
  | .came serial _ _ => some serial
  | _ => none

def answeredAs : Event → Option Nat
  | .answered serial _ _ => some serial
  | _ => none

end Event

structure Answering where
  node : NodeState
  /-- How many tasks began. -/
  begun : Nat
  log : List Event

def events (label : Label) : Op → List Event
  | .sendResponse addr response => [.answered label.serial addr response]
  | _ => []

/-- What is seen when a duty begins. -/
def arrival (serial : Nat) : Duty → List Event
  | .inbound fromAddr msg => [.came serial fromAddr msg]
  | _ => []

def answering (ctx : HandlerContext) : System Answering Label Input Begin Op Op.Result where
  apply label e input s :=
    let (r, node) := e.apply ctx.build ctx.crates.sha256 input s.node
    (r, ⟨node, s.begun, s.log ++ events label e⟩)
  start x s :=
    match x with
    | .duty duty =>
      some (⟨s.node, s.begun + 1, s.log ++ arrival s.begun duty⟩, ⟨s.begun, some duty⟩, ctx.perform duty)
    | .restart now => some (⟨Network.restarted now ctx s.node, s.begun + 1, s.log⟩, ⟨s.begun, none⟩, pure ())

def idle (node : NodeState) : Pool Answering Label Op Op.Result := ⟨⟨node, 0, []⟩, []⟩

/-! ## Contracts -/

/-- The response is of the kind that the request asks for. -/
def Matches (fromAddr : SocketAddr) : Payload → Payload → Prop
  | .pingRequest, .pingResponse observed => observed = some fromAddr
  | .findNodeRequest _, .findNodeResponse _ => True
  | .getProvidersRequest _, .getProvidersResponse _ _ => True
  | .addProviderRequest _ _, .addProviderResponse _ => True
  | .getChunkRequest _, .getChunkResponse _ => True
  | .putChunkRequest _ _, .putChunkResponse _ => True
  | .relayRequest _ _ _, .relayResponse _ _ => True
  | .connectRequest _ _ _, .connectResponse _ => True
  | _, _ => False

structure Answers (ctx : HandlerContext) (fromAddr : SocketAddr) (msg response : Message) : Prop where
  accepted : ctx.rejection msg = none
  msgId : response.msgId = msg.msgId
  senderId : response.senderId = ctx.nodeId.asBytes
  senderKey : response.senderKey = ctx.publicKey
  payload : Matches fromAddr msg.payload response.payload

/-- The ghost state tells whether the task has answered. -/
def contract (ctx : HandlerContext) (label : Label) : Contract Bool Op Op.Result where
  owes answered
    | .sendResponse addr response => answered = false ∧
      ∃ msg, label.duty = some (.inbound addr msg) ∧ Answers ctx addr msg response
    | _ => True
  gets _ _ _ := True
  next answered
    | .sendResponse _ _ => fun _ => true
    | _ => fun _ => answered

/-- The operation answers nothing. -/
def Silent : Op → Prop
  | .sendResponse _ _ => False
  | _ => True

section

variable (ctx : HandlerContext) {label : Label} {answered : Bool} {α : Type}

theorem silent_keeps {Q : α → Prop} {t : NodeTask α} (h : Performs Silent t) (hQ : Ensures Q t) :
    Keeps (contract ctx label) (fun answered' a => answered' = answered ∧ Q a) answered t := by
  induction t with
  | ret a => exact ⟨rfl, hQ⟩
  | op e k ih =>
    rw [performs_op] at h
    have hkeeps (r : e.Result) := ih r (h.2 r) (hQ r)
    cases e with
    | sendResponse => exact h.1.elim
    | _ => exact ⟨trivial, fun r _ => hkeeps r⟩

/-- Most tasks answer nothing at all. -/
theorem silent_task {t : NodeTask Unit} (h : Performs Silent t) :
    Keeps (contract ctx label) (fun _ _ => True) answered t :=
  (silent_keeps ctx h (ensures_true t)).mono fun _ _ _ => trivial

theorem silent_admits : Admits ctx Silent where
  random := trivial
  send _ := trivial
  await _ := trivial
  closestNodes _ _ := trivial
  externalAddr := trivial
  now := trivial
  insert _ _ _ _ := trivial
  recordFailure _ := trivial
  recordFailureByAddr _ := trivial
  setExternalAddr _ := trivial
  evictAndInsert _ _ := trivial
  spawnReplicate _ := trivial

/-! ## What is answered -/

theorem putChunk_silent (fromAddr : SocketAddr) (senderId : Bytes32) (hash : Hash) (data : Bytes) :
    Performs Silent (ctx.putChunk fromAddr senderId hash data) := by
  unfold HandlerContext.putChunk
  refine Keeps.perform trivial fun checked _ => ?_
  split
  · refine Keeps.perform trivial fun reserved _ => ?_
    split
    · refine Keeps.perform trivial fun r _ => ?_
      cases r with
      | error e => exact ⟨trivial, fun _ _ => performs_pure _⟩
      | ok u => exact performs_pure _
    · exact performs_pure _
  · exact performs_pure _

theorem respond_silent (fromAddr : SocketAddr) (msg : Message) : Performs Silent (ctx.respond fromAddr msg) := by
  unfold HandlerContext.respond
  split
  · exact performs_pure _
  · exact ⟨trivial, fun _ _ => performs_pure _⟩
  · exact ⟨trivial, fun _ _ => ⟨trivial, fun _ _ => performs_pure _⟩⟩
  · exact ⟨trivial, fun _ _ => performs_pure _⟩
  · refine Keeps.perform trivial fun r _ => ?_
    split
    · exact performs_pure _
    · exact performs_pure _
  · exact (putChunk_silent ctx _ _ _ _).bind fun _ => performs_pure _
  · exact (relay_performs ctx (fun _ => trivial) (fun _ _ => trivial) (fun _ => trivial)
      (fun _ => trivial) _ _ _ _).bind fun _ => performs_pure _
  · exact (connectBack_performs ctx trivial (fun _ => trivial) (fun _ => trivial) _).bind
      fun _ => performs_pure _
  · exact performs_pure _

theorem putChunk_ensures (fromAddr : SocketAddr) (senderId : Bytes32) (hash : Hash) (data : Bytes) :
    Ensures (fun payload => ∃ ok, payload = .putChunkResponse ok) (ctx.putChunk fromAddr senderId hash data) := by
  unfold HandlerContext.putChunk
  rw [perform_bind, ensures_op]
  intro checked
  split
  · rw [perform_bind, ensures_op]
    intro reserved
    split
    · rw [perform_bind, ensures_op]
      intro r
      cases r with
      | error e => exact fun _ => ⟨false, rfl⟩
      | ok u => exact ⟨true, rfl⟩
    · exact ⟨false, rfl⟩
  · exact ⟨false, rfl⟩

theorem forward_ensures (targetId : Bytes32) (inner : Message) :
    Ensures (fun payload => ∃ ok bytes, payload = .relayResponse ok bytes) (ctx.forward targetId inner) := by
  unfold HandlerContext.forward
  dsimp only
  rw [perform_bind, ensures_op]
  intro closest
  split
  · exact ⟨false, [], rfl⟩
  · refine (ensures_true _).bind fun resp _ => ?_
    split
    · exact ⟨false, [], rfl⟩
    · split
      · exact ⟨true, _, rfl⟩
      · exact ⟨false, [], rfl⟩

theorem relay_ensures (fromAddr : SocketAddr) (targetId : Bytes32) (payload : Bytes) (relayHops : UInt8) :
    Ensures (fun payload => ∃ ok bytes, payload = .relayResponse ok bytes)
      (ctx.relay fromAddr targetId payload relayHops) := by
  unfold HandlerContext.relay
  split_ifs
  · exact ⟨false, [], rfl⟩
  · exact ⟨false, [], rfl⟩
  · rw [perform_bind, ensures_op]
    intro checked
    split
    · split
      · exact ⟨false, [], rfl⟩
      · split_ifs
        · exact ⟨false, [], rfl⟩
        · exact ⟨false, [], rfl⟩
        · exact forward_ensures ctx targetId _
    · exact ⟨false, [], rfl⟩

theorem respond_ensures (fromAddr : SocketAddr) (msg : Message) :
    Ensures (fun r => ∀ payload ∈ r, Matches fromAddr msg.payload payload) (ctx.respond fromAddr msg) := by
  unfold HandlerContext.respond
  split
  next hmsg =>
    rintro _ ⟨⟩
    rw [hmsg]
    exact rfl
  next hmsg =>
    rintro closest _ ⟨⟩
    rw [hmsg]
    exact trivial
  next hmsg =>
    rintro providers closer _ ⟨⟩
    rw [hmsg]
    exact trivial
  next hmsg =>
    rintro r _ ⟨⟩
    rw [hmsg]
    exact trivial
  next hmsg =>
    rw [perform_bind, ensures_op]
    intro r
    split
    · rintro _ ⟨⟩
      rw [hmsg]
      exact trivial
    · rintro _ ⟨⟩
      rw [hmsg]
      exact trivial
  next hash data hmsg =>
    refine (putChunk_ensures ctx fromAddr msg.senderId hash data).bind ?_
    rintro _ ⟨ok, rfl⟩ _ ⟨⟩
    rw [hmsg]
    exact trivial
  next targetId payload hops hmsg =>
    refine (relay_ensures ctx fromAddr targetId payload hops).bind ?_
    rintro _ ⟨ok, bytes, rfl⟩ _ ⟨⟩
    rw [hmsg]
    exact trivial
  next hmsg =>
    refine (ensures_true _).bind ?_
    rintro connected - _ ⟨⟩
    rw [hmsg]
    exact trivial
  · rintro _ ⟨⟩

theorem sign_msgId (crates : Crates) (secret : Bytes32) (m : Message) : (m.sign crates secret).msgId = m.msgId := by
  unfold Message.sign
  split
  · rfl
  · rfl

/-- The answer is the last thing that a handler does. -/
theorem answer_keeps (serial : Nat) (fromAddr : SocketAddr) {msg : Message} (haccepted : ctx.rejection msg = none) :
    Keeps (contract ctx ⟨serial, some (.inbound fromAddr msg)⟩) (fun _ _ => True) false (ctx.answer fromAddr msg) := by
  apply (silent_keeps ctx (respond_silent ctx fromAddr msg) (respond_ensures ctx fromAddr msg)).bind
  rintro _ r ⟨rfl, hr⟩
  cases r with
  | none => exact trivial
  | some payload =>
    obtain ⟨hid, hkey, hpayload, -⟩ := Conduct.sign_fields ctx.crates ctx.secret
      (msg.response ctx.nodeId.asBytes ctx.publicKey ctx.pow payload)
    refine ⟨⟨rfl, msg, rfl, haccepted, sign_msgId _ _ _, hid, hkey, ?_⟩, fun _ _ => trivial⟩
    rw [hpayload]
    exact hr payload rfl

theorem handle_keeps (serial : Nat) (fromAddr : SocketAddr) (msg : Message) :
    Keeps (contract ctx ⟨serial, some (.inbound fromAddr msg)⟩) (fun _ _ => True) false
      (ctx.handleInboundMessage fromAddr msg) := by
  unfold HandlerContext.handleInboundMessage
  split
  · exact trivial
  next haccepted =>
    split
    · exact answer_keeps ctx serial fromAddr haccepted
    · have hsender := insertSender_performs ctx (silent_admits ctx) fromAddr msg
      apply (silent_keeps ctx hsender (ensures_true _)).bind
      rintro _ r ⟨rfl, -⟩
      cases r with
      | error e => exact trivial
      | ok u => exact answer_keeps ctx serial fromAddr haccepted

theorem perform_keeps (serial : Nat) (duty : Duty) :
    Keeps (contract ctx ⟨serial, some duty⟩) (fun _ _ => True) false (ctx.perform duty) := by
  have hgreets := (silent_admits ctx).toGreets
  cases duty with
  | inbound fromAddr msg => exact handle_keeps ctx serial fromAddr msg
  | replicate newNode =>
    refine silent_task ctx ((replicateChunksToNode_performs ctx newNode).mono fun e he => ?_)
    cases e with
    | sendResponse => exact he.elim
    | _ => exact trivial
  | query target peerId addrs =>
    exact silent_task ctx ((queryPeer_performs ctx hgreets target peerId addrs).bind fun _ => performs_pure _)
  | bootstrap addrs => exact silent_task ctx (doBootstrap_performs ctx hgreets addrs)
  | getProviders key =>
    exact silent_task ctx ((doGetProviders_performs ctx hgreets (fun _ => trivial) key).bind fun _ => performs_pure _)
  | store blocks manifest =>
    exact silent_task ctx (distributeTessera_performs ctx hgreets (fun _ _ => trivial)
      (fun _ _ _ _ _ => trivial) blocks manifest)
  | request addrs target payload =>
    apply silent_task ctx
    apply (newMessage_performs ctx hgreets.toTalks payload).bind
    intro msg
    exact (sendWithNatTraversal_performs ctx hgreets.toTalks addrs target msg).bind fun _ => performs_pure _
  | save => exact ⟨trivial, fun _ _ => ⟨trivial, fun _ _ => trivial⟩⟩
  | cleanup => exact ⟨trivial, fun _ _ => ⟨trivial, fun _ _ => ⟨trivial, fun _ _ => trivial⟩⟩⟩

end

/-! ## Runs -/

/-- The number of a task is its place in the pool. Whose number is in the log has answered. -/
structure Accounted (ctx : HandlerContext) (s : Answering) (gs : List (Label × Bool)) : Prop where
  begun : s.begun = gs.length
  serials : ∀ (i : Nat) (t : Label × Bool), gs[i]? = some t → t.1.serial = i
  arrived : ∀ serial ∈ s.log.filterMap Event.cameAs, serial < s.begun
  once : (s.log.filterMap Event.cameAs).Nodup
  came : ∀ (i : Nat) (t : Label × Bool), gs[i]? = some t → ∀ fromAddr msg, t.1.duty = some (.inbound fromAddr msg) →
    .came i fromAddr msg ∈ s.log
  answered : ∀ serial ∈ s.log.filterMap Event.answeredAs, ∃ label, gs[serial]? = some (label, true)
  single : (s.log.filterMap Event.answeredAs).Nodup
  answers : ∀ serial addr response, .answered serial addr response ∈ s.log →
    ∃ msg, .came serial addr msg ∈ s.log ∧ Answers ctx addr msg response

section

variable {ctx : HandlerContext} {s : Answering} {gs : List (Label × Bool)} {i : Nat} {label : Label} {answered : Bool}

/-- An operation that answers nothing. -/
theorem Accounted.silent (h : Accounted ctx s gs) (hi : gs[i]? = some (label, answered)) (node : NodeState) :
    Accounted ctx ⟨node, s.begun, s.log ++ []⟩ (gs.set i (label, answered)) := by
  obtain ⟨hlt, hget⟩ := List.getElem?_eq_some_iff.mp hi
  rw [List.append_nil, ← hget, List.set_getElem_self]
  exact ⟨h.begun, h.serials, h.arrived, h.once, h.came, h.answered, h.single, h.answers⟩

/-- The labels stay. -/
theorem set_label (hi : gs[i]? = some (label, answered)) {answered' : Bool} {j : Nat} {t : Label × Bool}
    (ht : (gs.set i (label, answered'))[j]? = some t) : ∃ before, gs[j]? = some (t.1, before) := by
  rcases Lib.Lists.getElem?_set_some ht with ⟨rfl, rfl⟩ | ⟨-, hold⟩
  · exact ⟨answered, hi⟩
  · exact ⟨t.2, hold⟩

theorem answer_cameAs (log : List Event) (serial : Nat) (addr : SocketAddr) (response : Message) :
    (log ++ [Event.answered serial addr response]).filterMap Event.cameAs = log.filterMap Event.cameAs := by
  rw [List.filterMap_append]
  exact List.append_nil _

theorem answer_answeredAs (log : List Event) (serial : Nat) (addr : SocketAddr) (response : Message) :
    (log ++ [Event.answered serial addr response]).filterMap Event.answeredAs =
      log.filterMap Event.answeredAs ++ [serial] := List.filterMap_append

/-- Who has not answered is not in the log. -/
theorem Accounted.fresh (h : Accounted ctx s gs) (hi : gs[i]? = some (label, false)) :
    label.serial ∉ s.log.filterMap Event.answeredAs := by
  intro hmem
  obtain ⟨label', hlabel⟩ := h.answered _ hmem
  rw [h.serials i _ hi] at hlabel
  cases hi.symm.trans hlabel

theorem Accounted.answer (h : Accounted ctx s gs) (hi : gs[i]? = some (label, false)) (node : NodeState)
    {addr : SocketAddr} {msg response : Message} (hduty : label.duty = some (.inbound addr msg))
    (hanswers : Answers ctx addr msg response) :
    Accounted ctx ⟨node, s.begun, s.log ++ [.answered label.serial addr response]⟩ (gs.set i (label, true)) where
  begun := h.begun.trans List.length_set.symm
  serials j t ht := by
    obtain ⟨before, hj⟩ := set_label hi ht
    exact h.serials j (t.1, before) hj
  arrived := by
    rw [answer_cameAs]
    exact h.arrived
  once := by
    rw [answer_cameAs]
    exact h.once
  came j t ht fromAddr msg hmsg := by
    obtain ⟨before, hj⟩ := set_label hi ht
    exact List.mem_append_left _ (h.came j (t.1, before) hj fromAddr msg hmsg)
  answered serial hmem := by
    have hserial : label.serial = i := h.serials i _ hi
    rw [answer_answeredAs] at hmem
    rcases List.mem_append.mp hmem with hold | hnew
    · obtain ⟨label', hlabel⟩ := h.answered serial hold
      have hne : i ≠ serial := fun heq => h.fresh hi (hserial.trans heq ▸ hold)
      exact ⟨label', (List.getElem?_set_ne hne).trans hlabel⟩
    · rw [List.mem_singleton.mp hnew, hserial]
      exact ⟨label, List.getElem?_set_self (List.getElem?_eq_some_iff.mp hi).1⟩
  single := by
    rw [answer_answeredAs]
    refine h.single.append (List.nodup_singleton _) fun serial hold hnew => ?_
    rw [List.mem_singleton.mp hnew] at hold
    exact h.fresh hi hold
  answers serial addr' response' hmem := by
    rcases List.mem_append.mp hmem with hold | hnew
    · obtain ⟨msg', hcame, hmsg'⟩ := h.answers serial addr' response' hold
      exact ⟨msg', List.mem_append_left _ hcame, hmsg'⟩
    · cases List.mem_singleton.mp hnew
      have hcame := h.came i _ hi addr msg hduty
      rw [← h.serials i _ hi] at hcame
      exact ⟨msg, List.mem_append_left _ hcame, hanswers⟩

theorem Accounted.apply {e : Op} (h : Accounted ctx s gs) (hi : gs[i]? = some (label, answered))
    (howes : (contract ctx label).owes answered e) (input : Input) :
    Accounted ctx ((answering ctx).apply label e input s).2 (gs.set i (label,
      (contract ctx label).next answered e ((answering ctx).apply label e input s).1)) := by
  cases e with
  | sendResponse addr response =>
    obtain ⟨rfl, msg, hduty, hanswers⟩ := howes
    exact h.answer hi _ hduty hanswers
  | _ => exact h.silent hi _

/-- A task begins with the next number. -/
theorem Accounted.more (h : Accounted ctx s gs) (node : NodeState) {duty : Option Duty} {new : List Event}
    (hnew : new = [] ∨ ∃ fromAddr msg, new = [.came s.begun fromAddr msg])
    (hcame : ∀ fromAddr msg, duty = some (.inbound fromAddr msg) → .came s.begun fromAddr msg ∈ new) :
    Accounted ctx ⟨node, s.begun + 1, s.log ++ new⟩ (gs ++ [(⟨s.begun, duty⟩, false)]) := by
  obtain ⟨hanswered, hserial, hnodup, hanswer⟩ : new.filterMap Event.answeredAs = [] ∧
      (∀ serial ∈ new.filterMap Event.cameAs, serial = s.begun) ∧ (new.filterMap Event.cameAs).Nodup ∧
      ∀ serial addr response, .answered serial addr response ∉ new := by
    rcases hnew with rfl | ⟨fromAddr, msg, rfl⟩
    · exact ⟨rfl, by rintro _ ⟨⟩, List.nodup_nil, fun _ _ _ => List.not_mem_nil⟩
    · refine ⟨rfl, fun serial hmem => List.mem_singleton.mp hmem, List.nodup_singleton s.begun, ?_⟩
      intro serial addr response hmem
      cases List.mem_singleton.mp hmem
  have hget (j : Nat) (t : Label × Bool) (ht : (gs ++ [(⟨s.begun, duty⟩, false)])[j]? = some t) :
      gs[j]? = some t ∨ j = s.begun ∧ t = (⟨s.begun, duty⟩, false) := by
    rcases Lib.Lists.getElem?_concat_some ht with hold | ⟨rfl, rfl⟩
    · exact Or.inl hold
    · exact Or.inr ⟨h.begun.symm, rfl⟩
  refine ⟨by simp [h.begun], ?_, ?_, ?_, ?_, ?_, ?_, ?_⟩
  · intro j t ht
    rcases hget j t ht with hold | ⟨rfl, rfl⟩
    · exact h.serials j t hold
    · rfl
  · intro serial hmem
    rw [List.filterMap_append] at hmem
    rcases List.mem_append.mp hmem with hold | hmem
    · exact (h.arrived serial hold).trans (Nat.lt_succ_self _)
    · rw [hserial serial hmem]
      exact Nat.lt_succ_self _
  · rw [List.filterMap_append]
    refine h.once.append hnodup fun serial hold hmem => ?_
    rw [hserial serial hmem] at hold
    exact absurd (h.arrived _ hold) (lt_irrefl _)
  · intro j t ht fromAddr msg hmsg
    rcases hget j t ht with hold | ⟨rfl, rfl⟩
    · exact List.mem_append_left _ (h.came j t hold fromAddr msg hmsg)
    · exact List.mem_append_right _ (hcame fromAddr msg hmsg)
  · intro serial hmem
    rw [List.filterMap_append, hanswered, List.append_nil] at hmem
    obtain ⟨label', hlabel⟩ := h.answered serial hmem
    exact ⟨label', by rw [List.getElem?_append_left (List.getElem?_eq_some_iff.mp hlabel).1]; exact hlabel⟩
  · rw [List.filterMap_append, hanswered, List.append_nil]
    exact h.single
  · intro serial addr response hmem
    rcases List.mem_append.mp hmem with hold | hmem
    · obtain ⟨msg, hcame', hmsg⟩ := h.answers serial addr response hold
      exact ⟨msg, List.mem_append_left _ hcame', hmsg⟩
    · exact absurd hmem (hanswer serial addr response)

theorem Accounted.start {s' : Answering} {x : Begin} {t : NodeTask Unit} (h : Accounted ctx s gs)
    (hstart : (answering ctx).start x s = some (s', label, t)) :
    ∃ answered, Keeps (contract ctx label) (fun _ _ => True) answered t ∧
      Accounted ctx s' (gs ++ [(label, answered)]) := by
  cases x with
  | duty duty =>
    cases hstart
    refine ⟨false, perform_keeps ctx s.begun duty, h.more s.node ?_ ?_⟩
    · cases duty with
      | inbound fromAddr msg => exact Or.inr ⟨fromAddr, msg, rfl⟩
      | _ => exact Or.inl rfl
    · rintro fromAddr msg ⟨⟩
      exact List.mem_cons_self
  | restart now =>
    cases hstart
    have hmore : Accounted ctx ⟨Network.restarted now ctx s.node, s.begun + 1, s.log ++ []⟩
        (gs ++ [(⟨s.begun, none⟩, false)]) := h.more _ (Or.inl rfl) (by rintro _ _ ⟨⟩)
    rw [List.append_nil] at hmore
    exact ⟨false, trivial, hmore⟩

end

theorem run_accounted (ctx : HandlerContext) (node : NodeState) (as : List (Action Begin Input)) :
    ∃ gs, Accounted ctx (run (answering ctx).step (idle node) as).state gs := by
  have hfresh : ∃ gs, Kept (contract ctx) (idle node) gs ∧ Accounted ctx (idle node).state gs := by
    refine ⟨[], .nil, rfl, ?_, ?_, List.nodup_nil, ?_, ?_, List.nodup_nil, ?_⟩
    · rintro i t ⟨⟩
    · rintro serial ⟨⟩
    · rintro i t ⟨⟩
    · rintro serial ⟨⟩
    · rintro serial addr response ⟨⟩
  obtain ⟨gs, -, h⟩ := run_kept (J := Accounted ctx) (fun x s s' label t gs _ h hstart => h.start hstart)
    (fun label answered e input s gs i _ howes hi h => ⟨trivial, h.apply hi howes input⟩)
    hfresh (meets_of_forall allows_true (idle node) as)
  exact ⟨gs, h⟩

/-- In every interleaving of the tasks of a node: messages come under distinct numbers, no number is answered
twice, and every answer goes to the address of a message that was taken in, with its message id, the identity of
the node and a payload of the kind that it asks for. -/
theorem one_response_per_request (ctx : HandlerContext) (node : NodeState) (as : List (Action Begin Input)) :
    ((run (answering ctx).step (idle node) as).state.log.filterMap Event.cameAs).Nodup ∧
      ((run (answering ctx).step (idle node) as).state.log.filterMap Event.answeredAs).Nodup ∧
      ∀ serial addr response, .answered serial addr response ∈ (run (answering ctx).step (idle node) as).state.log →
        ∃ msg, .came serial addr msg ∈ (run (answering ctx).step (idle node) as).state.log ∧
          Answers ctx addr msg response := by
  obtain ⟨gs, h⟩ := run_accounted ctx node as
  exact ⟨h.once, h.single, h.answers⟩

end TesserasDht.Replies
