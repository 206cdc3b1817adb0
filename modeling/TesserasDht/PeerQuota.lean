import TesserasDht.Peers
import TesserasDht.Routines

/-!
# The quota of a peer

A place is taken before the chunk is written, and given back if that fails. The ghost state of a task
says whether the task holds a place.
-/

open Lib.Lists Lib.Tasks Lib.Runs

namespace TesserasDht.PeerQuota

open Admission Conduct Peers Routines

/-! ## Tasks that count nothing -/

/-- The operation leaves the chunk counts alone, and puts no chunk. -/
def CountsNothing : Op → Prop
  | .putChunk _ _ => False
  | .reserveCount _ _ => False
  | .rollbackCount _ => False
  | .retainCounts _ => False
  | _ => True

section

variable (ctx : HandlerContext)

/-- Tasks that keep the routing table up to date count nothing. -/
theorem counts_nothing : Greets ctx CountsNothing where
  random := trivial
  send _ := trivial
  await _ := trivial
  closestNodes _ _ := trivial
  externalAddr := trivial
  now := trivial
  insert _ _ _ _ := trivial
  recordFailure _ := trivial
  recordFailureByAddr _ := trivial
  setExternalAddr _ := trivial

theorem evictUnresponsive_performs (lrs : NodeId) (node : NodeInfo) :
    Performs CountsNothing (ctx.evictUnresponsive lrs node) := by
  unfold HandlerContext.evictUnresponsive
  rw [perform_bind, performs_op]
  refine ⟨trivial, fun closest => ?_⟩
  split
  · exact performs_pure _
  · apply (ownMessage_performs ctx trivial _ _).bind
    intro ping
    apply (request_performs (counts_nothing ctx).toTalks).bind
    intro r
    cases r with
    | some _ => exact performs_pure _
    | none => exact ⟨trivial, fun _ _ => performs_pure _⟩

theorem insertSender_performs (fromAddr : SocketAddr) (msg : Message) :
    Performs CountsNothing (ctx.insertSender fromAddr msg) := by
  unfold HandlerContext.insertSender
  simp only [perform_bind, performs_op]
  refine ⟨trivial, fun now => ⟨trivial, fun r => ?_⟩⟩
  split
  · exact performs_pure _
  · split
    · exact ⟨trivial, fun _ _ => performs_pure _⟩
    · exact performs_pure _
  · exact (evictUnresponsive_performs ctx _ _).bind fun _ => performs_pure _
  · exact performs_pure _

theorem replicate_performs (node : NodeInfo) :
    Performs CountsNothing (ctx.replicateChunksToNode node) := by
  refine (replicateChunksToNode_performs ctx node).mono fun e he => ?_
  cases e with
  | putChunk | reserveCount | rollbackCount | retainCounts => exact he
  | _ => exact trivial

end

/-! ## The contract of a task -/

/-- The sender of the message that a task handles. -/
def sender {ν : Type} : Job ν → Option Bytes32
  | .handle _ msg _ => some msg.senderId
  | _ => none

/-- A place is taken for the sender, the put uses it up, and a put that fails gives it back. -/
def contract {ν : Type} (ctx : HandlerContext) (job : Job ν) : Contract Bool Op Op.Result where
  owes held e := match e with
    | .reserveCount id max =>
      held = false ∧ sender job = some id ∧ max = ctx.config.maxChunksPerPeer
    | .putChunk _ _ => held = true
    | .rollbackCount id => held = true ∧ sender job = some id
    | _ => True
  gets _ _ _ := True
  next held e := match e with
    | .reserveCount _ _ => fun (reserved : Bool) => reserved
    | .putChunk _ _ => fun (r : Outcome Unit) => match r with
      | .ok _ => false
      | .error _ => true
    | .rollbackCount _ => fun _ => false
    | _ => fun _ => held

section

variable {ν : Type} (ctx : HandlerContext) {job : Job ν} {α : Type}

theorem keeps_of_performs {t : NodeTask α} (h : Performs CountsNothing t) (held : Bool) :
    Keeps (contract ctx job) (fun held' _ => held' = held) held t := by
  apply h.keeps
  · intro e he
    cases e with
    | putChunk | reserveCount | rollbackCount => exact he.elim
    | _ => exact trivial
  · intro e r he
    cases e with
    | putChunk | reserveCount | rollbackCount => exact he.elim
    | _ => rfl

section

variable (fromAddr : SocketAddr) (msg : Message) (via : Option (Sent ν))

theorem putChunk_keeps (hash : Hash) (data : Bytes) :
    Keeps (contract ctx (.handle fromAddr msg via)) (fun held _ => held = false) false
      (ctx.putChunk fromAddr msg.senderId hash data) := by
  refine Keeps.perform trivial fun checked _ => ?_
  cases checked with
  | false => exact rfl
  | true =>
    refine Keeps.perform ⟨rfl, rfl, rfl⟩ fun reserved _ => ?_
    cases reserved with
    | false => exact rfl
    | true =>
      refine Keeps.perform rfl fun r _ => ?_
      cases r with
      | ok u => exact rfl
      | error e => exact ⟨⟨rfl, rfl⟩, fun _ _ => rfl⟩

theorem respond_keeps :
    Keeps (contract ctx (.handle fromAddr msg via)) (fun held _ => held = false) false
      (ctx.respond fromAddr msg) := by
  by_cases hput : ∃ hash data, msg.payload = .putChunkRequest hash data
  · obtain ⟨hash, data, hmsg⟩ := hput
    unfold HandlerContext.respond
    rw [hmsg]
    exact (putChunk_keeps ctx fromAddr msg via hash data).bind fun _ _ h => h
  · apply keeps_of_performs
    unfold HandlerContext.respond
    split
    · exact performs_pure _
    · exact ⟨trivial, fun _ _ => performs_pure _⟩
    · exact ⟨trivial, fun _ _ => ⟨trivial, fun _ _ => performs_pure _⟩⟩
    · exact ⟨trivial, fun _ _ => performs_pure _⟩
    · refine Keeps.perform trivial fun r _ => ?_
      split
      · exact performs_pure _
      · exact performs_pure _
    next hash data h => exact absurd ⟨hash, data, h⟩ hput
    · exact (relay_performs ctx (fun _ => trivial) (fun _ _ => trivial) (fun _ => trivial)
        (fun _ => trivial) _ _ _ _).bind fun _ => performs_pure _
    · exact (connectBack_performs ctx trivial (fun _ => trivial) (fun _ => trivial) _).bind
        fun _ => performs_pure _
    · exact performs_pure _

theorem answer_keeps :
    Keeps (contract ctx (.handle fromAddr msg via)) (fun _ _ => True) false
      (ctx.answer fromAddr msg) := by
  apply (respond_keeps ctx fromAddr msg via).bind
  intro held r _
  cases r with
  | none => exact trivial
  | some payload => exact ⟨trivial, fun _ _ => trivial⟩

theorem handle_keeps :
    Keeps (contract ctx (.handle fromAddr msg via)) (fun _ _ => True) false
      (ctx.handleInboundMessage fromAddr msg) := by
  unfold HandlerContext.handleInboundMessage
  split
  · exact trivial
  · split
    · exact answer_keeps ctx fromAddr msg via
    · apply (keeps_of_performs ctx (insertSender_performs ctx fromAddr msg) false).bind
      rintro held r rfl
      cases r with
      | error e => exact trivial
      | ok u => exact answer_keeps ctx fromAddr msg via

end

theorem task_keeps (job : Job ν) :
    Keeps (contract ctx job) (fun _ _ => True) false (Network.task ctx job) := by
  have hquiet {t : NodeTask Unit} (h : Performs CountsNothing t) :
      Keeps (contract ctx job) (fun _ _ => True) false t :=
    (keeps_of_performs ctx h false).mono fun _ _ _ => trivial
  cases job with
  | handle fromAddr msg via => exact handle_keeps ctx fromAddr msg via
  | replicate newNode => exact hquiet (replicate_performs ctx newNode)
  | query target peerId addrs =>
    exact hquiet ((queryPeer_performs ctx (counts_nothing ctx) target peerId addrs).bind
      fun _ => performs_pure _)
  | bootstrap addrs => exact hquiet (doBootstrap_performs ctx (counts_nothing ctx) addrs)
  | request addrs target payload =>
    apply hquiet
    apply (newMessage_performs ctx (counts_nothing ctx).toTalks payload).bind
    intro msg
    exact (sendWithNatTraversal_performs ctx (counts_nothing ctx).toTalks addrs target msg).bind
      fun _ => performs_pure _
  | save => exact hquiet ⟨trivial, fun _ _ => ⟨trivial, fun _ _ => performs_pure _⟩⟩
  | cleanup => exact ⟨trivial, fun _ _ => ⟨trivial, fun _ _ => ⟨trivial, fun _ _ => trivial⟩⟩⟩
  | restart => exact trivial

end

/-! ## What is counted -/

/-- A task put a chunk, which was new or not, or said so to the sender. -/
inductive Entry (ν : Type)
  | stored (label : Label ν) (new : Bool)
  | answered (label : Label ν)

section

variable {ν : Type}

def entries (label : Label ν) (e : Op) (r : e.Result) (s : NetState ν) : List (Entry ν) :=
  match e, r with
  | .putChunk hash _, .ok _ => [.stored label (!(s.nodes label.node).chunks.exists hash)]
  | .sendResponse _ msg, _ => if msg.payload = .putChunkResponse true then [.answered label] else []
  | _, _ => []

def Entry.answers (id : Nat) : Entry ν → Bool
  | .answered label => label.id = id
  | .stored _ _ => false

variable [DecidableEq ν] (v : ν) (id : Bytes32)

/-- The task runs on the node, for a message of the sender. -/
def Mine (label : Label ν) : Prop := label.node = v ∧ sender label.job = some id

instance (label : Label ν) : Decidable (Mine v id label) := inferInstanceAs (Decidable (_ ∧ _))

def Entry.puts : Entry ν → Bool
  | .stored label _ => Mine v id label
  | .answered _ => false

/-- The put added a chunk, and the request was answered. -/
def Entry.adds (log : List (Entry ν)) : Entry ν → Bool
  | .stored label new => Mine v id label ∧ new = true ∧ log.any (Entry.answers label.id) = true
  | .answered _ => false

/-- The number of requests of the sender that the node answered with success and that added a chunk. -/
def addedFor (log : List (Entry ν)) : Nat := log.countP (Entry.adds v id log)

/-- The number of puts for the sender that succeeded. -/
def storedFor (log : List (Entry ν)) : Nat := log.countP (Entry.puts v id)

theorem addedFor_le (log : List (Entry ν)) : addedFor v id log ≤ storedFor v id log := by
  apply List.countP_mono_left
  intro r _ h
  cases r with
  | stored label new =>
    simp only [Entry.adds, decide_eq_true_eq] at h
    simp only [Entry.puts, h.1, decide_true]
  | answered label => cases h

/-- The number of places that the tasks for the sender hold. -/
def heldFor (gs : List (Label ν × Bool)) : Nat := gs.countP fun t => Mine v id t.1 ∧ t.2 = true

def countOf (s : NetState ν) : UInt32 := ((s.nodes v).peerChunkCounts id).getD 0

/-- What was put and what is held is counted, and is within the quota. -/
structure Counted (net : Network ν) (s : NetState ν × List (Entry ν)) (gs : List (Label ν × Bool)) :
    Prop where
  count : storedFor v id s.2 + heldFor v id gs ≤ (countOf v id s.1).toNat
  bound : storedFor v id s.2 + heldFor v id gs ≤ (net.ctx v).config.maxChunksPerPeer.toNat

/-! ## The counts -/

section

variable (b : Build) (sha256 : Bytes → Hash) (input : Input) (s : NodeState)

theorem apply_counts {e : Op} (he : CountsNothing e ∨ ∃ hash data, e = .putChunk hash data) :
    (e.apply b sha256 input s).2.peerChunkCounts = s.peerChunkCounts := by
  cases e with
  | reserveCount | rollbackCount | retainCounts => exact (he.resolve_right (by rintro ⟨_, _, ⟨⟩⟩)).elim
  | insert node =>
    dsimp only [Op.apply]
    split
    · rfl
    · rfl
  | savePeersBatch peers =>
    dsimp only [Op.apply]
    split
    · rfl
    · rfl
  | addProvider key id pk addrs ttl =>
    dsimp only [Op.apply]
    split
    · rfl
    · split
      · rfl
      · rfl
  | _ => rfl

end

theorem reserveCount_eq (max : UInt32) (counts : Bytes32 → Option UInt32) :
    (reserveCount max id counts).1 = true ∧ (counts id).getD 0 < max ∧
        (((reserveCount max id counts).2 id).getD 0).toNat = ((counts id).getD 0).toNat + 1 ∨
      (reserveCount max id counts).1 = false ∧
        ((reserveCount max id counts).2 id).getD 0 = (counts id).getD 0 := by
  unfold reserveCount
  dsimp only
  split
  next h =>
    refine Or.inr ⟨rfl, ?_⟩
    dsimp only
    rw [Function.update_self, Option.getD_some]
  next h =>
    have hlt : (counts id).getD 0 < max := UInt32.not_le.mp h
    refine Or.inl ⟨rfl, hlt, ?_⟩
    have hmax := max.toNat_lt
    rw [UInt32.lt_iff_toNat_lt] at hlt
    dsimp only
    rw [Function.update_self, Option.getD_some, UInt32.toNat_add]
    exact Nat.mod_eq_of_lt (by simp only [UInt32.toNat_one]; omega)

theorem rollbackCount_eq (counts : Bytes32 → Option UInt32) :
    (((rollbackCount id counts) id).getD 0).toNat = ((counts id).getD 0).toNat - 1 := by
  unfold rollbackCount
  rw [Function.update_self, Option.getD_some]
  cases counts id with
  | none => rfl
  | some c =>
    dsimp only [Option.getD_some]
    split
    next h =>
      subst h
      rfl
    next h =>
      have hpos : c.toNat ≠ 0 := fun h0 => h (UInt32.toNat_inj.mp h0)
      rw [UInt32.toNat_sub_of_le]
      · rfl
      · rw [UInt32.le_iff_toNat_le, UInt32.toNat_one]
        omega

theorem counts_of_ne {id' : Bytes32} (hne : id' ≠ id) (max : UInt32)
    (counts : Bytes32 → Option UInt32) :
    (reserveCount max id' counts).2 id = counts id ∧ rollbackCount id' counts id = counts id := by
  constructor
  · unfold reserveCount
    dsimp only
    split
    · exact Function.update_of_ne hne.symm _ _
    · exact Function.update_of_ne hne.symm _ _
  · exact Function.update_of_ne hne.symm _ _

theorem heldFor_set {gs : List (Label ν × Bool)} {i : Nat} {label : Label ν} {held : Bool}
    (hi : gs[i]? = some (label, held)) (held' : Bool) :
    heldFor v id (gs.set i (label, held')) + (if Mine v id label ∧ held = true then 1 else 0) =
      heldFor v id gs + if Mine v id label ∧ held' = true then 1 else 0 := by
  unfold heldFor
  induction gs generalizing i with
  | nil => cases hi
  | cons t gs ih =>
    cases i with
    | zero =>
      cases hi
      simp only [List.set_cons_zero, List.countP_cons, decide_eq_true_eq]
      omega
    | succ i =>
      have hrest := ih (i := i) hi
      simp only [List.set_cons_succ, List.countP_cons]
      omega

theorem heldFor_set_of_not {gs : List (Label ν × Bool)} {i : Nat} {label : Label ν} {held : Bool}
    (hi : gs[i]? = some (label, held)) (held' : Bool) (hmine : Mine v id label → held' = held) :
    heldFor v id (gs.set i (label, held')) = heldFor v id gs := by
  have h := heldFor_set v id hi held'
  by_cases hm : Mine v id label
  · rw [hmine hm] at h ⊢
    omega
  · simp only [hm, false_and, if_false] at h
    exact h

/-! ## Steps -/

/-- A prune does not remove the count of the sender, unless it is zero. -/
def Spares (label : Label ν) (e : Op) (s : NetState ν) : Prop :=
  match e with
  | .retainCounts known => label.node = v → id ∈ known ∨ countOf v id s = 0
  | _ => True

/-- The node does not start again with the count of the sender above zero. -/
def SparesStart (x : Start ν) (s : NetState ν) : Prop :=
  match x with
  | .restart node _ => node = v → countOf v id s = 0
  | _ => True

instance (label : Label ν) (e : Op) (s : NetState ν) : Decidable (Spares v id label e s) := by
  unfold Spares
  split <;> infer_instance

instance (x : Start ν) (s : NetState ν) : Decidable (SparesStart v id x s) :=
  match x with
  | .restart node _ => inferInstanceAs (Decidable (node = v → countOf v id s = 0))
  | .inject .. | .deliver .. | .replicate .. | .query .. | .bootstrap .. | .request .. | .save _ | .cleanup _ =>
    inferInstanceAs (Decidable True)

section

variable {v id} {net : Network ν} {s : NetState ν × List (Entry ν)} {gs : List (Label ν × Bool)}

variable (v id net s) in
theorem countOf_apply (label : Label ν) (e : Op) (input : Input) :
    countOf v id (net.apply label e input s.1).2 =
      if label.node = v then
        ((e.apply (net.ctx v).build (net.ctx v).crates.sha256 input
          (s.1.nodes v)).2.peerChunkCounts id).getD 0
      else
        countOf v id s.1 := by
  unfold countOf Network.apply
  dsimp only
  split
  next h =>
    subst h
    rw [Function.update_self]
  next h => rw [Function.update_of_ne (Ne.symm h)]

theorem Counted.quiet {label : Label ν} {held : Bool} {s' : NetState ν} {log : List (Entry ν)} {i : Nat}
    (hJ : Counted v id net s gs) (hi : gs[i]? = some (label, held))
    (hcount : (countOf v id s.1).toNat ≤ (countOf v id s').toNat ∨
      storedFor v id s.2 + heldFor v id gs = 0)
    (hlog : log.countP (Entry.puts v id) = 0) (held' : Bool) (hheld : Mine v id label → held' = held) :
    Counted v id net (s', s.2 ++ log) (gs.set i (label, held')) := by
  obtain ⟨hold, hbound⟩ := hJ
  have hset := heldFor_set_of_not v id hi held' hheld
  have hstored : storedFor v id (s.2 ++ log) = storedFor v id s.2 := by
    rw [storedFor, List.countP_append, hlog]
    rfl
  constructor
  · dsimp only
    rw [hset, hstored]
    omega
  · dsimp only
    rw [hset, hstored]
    exact hbound

theorem putChunk_counted {label : Label ν} {held : Bool} {hash : Hash} {data : Bytes} {i : Nat}
    (input : Input) (howes : held = true) (hi : gs[i]? = some (label, held))
    (hJ : Counted v id net s gs) :
    Counted v id net ((net.system.logged entries).apply label (.putChunk hash data) input s).2
      (gs.set i (label, (contract (net.ctx label.node) label.job).next held (.putChunk hash data)
        ((net.system.logged entries).apply label (.putChunk hash data) input s).1)) := by
  have hcount := countOf_apply v id net s label (.putChunk hash data) input
  rw [apply_counts _ _ _ _ (Or.inr ⟨hash, data, rfl⟩)] at hcount
  have hsame : countOf v id (net.apply label (.putChunk hash data) input s.1).2 = countOf v id s.1 := by
    rw [hcount]
    split
    · rfl
    · rfl
  have hresult : ∀ r : Outcome Unit, Counted v id net
      ((net.apply label (.putChunk hash data) input s.1).2, s.2 ++ entries label (.putChunk hash data) r s.1)
      (gs.set i (label, (contract (net.ctx label.node) label.job).next held (.putChunk hash data) r)) := by
    intro r
    cases r with
    | error e => exact hJ.quiet hi (Or.inl (by rw [hsame])) rfl true fun _ => howes.symm
    | ok u =>
      obtain ⟨hold, hbound⟩ := hJ
      have hset := heldFor_set v id hi false
      have hstored : storedFor v id (s.2 ++ entries label (.putChunk hash data) (.ok u) s.1) =
          storedFor v id s.2 + if Mine v id label then 1 else 0 := by
        rw [storedFor, List.countP_append]
        simp only [entries, List.countP_singleton, Entry.puts, decide_eq_true_eq]
        rfl
      simp only [howes, and_true, Bool.false_eq_true, and_false, if_false, Nat.add_zero] at hset
      constructor
      · dsimp only
        rw [hstored, hsame]
        change _ + heldFor v id (gs.set i (label, false)) ≤ _
        omega
      · dsimp only
        rw [hstored]
        change _ + heldFor v id (gs.set i (label, false)) ≤ _
        omega
  exact hresult _

theorem reserveCount_counted {label : Label ν} {held : Bool} {id' : Bytes32} {max : UInt32} {i : Nat}
    (input : Input)
    (howes : (contract (net.ctx label.node) label.job).owes held (.reserveCount id' max))
    (hi : gs[i]? = some (label, held)) (hJ : Counted v id net s gs) :
    Counted v id net ((net.system.logged entries).apply label (.reserveCount id' max) input s).2
      (gs.set i (label, (contract (net.ctx label.node) label.job).next held (.reserveCount id' max)
        ((net.system.logged entries).apply label (.reserveCount id' max) input s).1)) := by
  obtain ⟨hheld, hsender, hmax⟩ := howes
  have hcount := countOf_apply v id net s label (.reserveCount id' max)
    input
  have hresult : ((net.system.logged entries).apply label (.reserveCount id' max) input s).1 =
      (reserveCount max id' (s.1.nodes label.node).peerChunkCounts).1 := rfl
  by_cases hmine : Mine v id label
  · obtain ⟨hnode, hid⟩ := hmine
    obtain rfl : id' = id := Option.some.inj (hsender.symm.trans hid)
    rw [if_pos hnode] at hcount
    rw [hnode] at hmax hresult
    rcases reserveCount_eq id' max (s.1.nodes v).peerChunkCounts with ⟨hr, hlt, hnext⟩ | ⟨hr, hnext⟩
    · -- one more place
      rw [hr] at hresult
      have hset := heldFor_set v id' hi true
      have hmine : Mine v id' label := ⟨hnode, hid⟩
      simp only [hmine, hheld, true_and, Bool.false_eq_true, if_false, if_true, Nat.add_zero] at hset
      have hstored : ((net.system.logged entries).apply label (.reserveCount id' max) input s).2 =
          ((net.apply label (.reserveCount id' max) input s.1).2, s.2) :=
        Prod.ext rfl (List.append_nil _)
      have hcount' : (countOf v id' (net.apply label (.reserveCount id' max) input s.1).2).toNat =
          (countOf v id' s.1).toNat + 1 := by
        rw [hcount]
        exact hnext
      have hlt' : (countOf v id' s.1).toNat < max.toNat := UInt32.lt_iff_toNat_lt.mp hlt
      obtain ⟨hold, hbound⟩ := hJ
      rw [hresult, hstored]
      subst hmax
      constructor
      · dsimp only
        rw [hcount']
        change _ + heldFor v id' (gs.set i (label, true)) ≤ _
        rw [hset]
        omega
      · change _ + heldFor v id' (gs.set i (label, true)) ≤ _
        rw [hset]
        dsimp only
        omega
    · rw [hr] at hresult
      refine hJ.quiet hi (Or.inl ?_) rfl _ fun _ => ?_
      · refine le_of_eq (congrArg UInt32.toNat ?_)
        exact (hcount.trans hnext).symm
      · rw [hresult, hheld]
        rfl
  · refine hJ.quiet hi (Or.inl ?_) rfl _ fun h => absurd h hmine
    refine le_of_eq (congrArg UInt32.toNat (hcount.trans ?_).symm)
    split
    next hnode =>
      have hne : id' ≠ id := by
        rintro rfl
        exact hmine ⟨hnode, hsender⟩
      exact congrArg (Option.getD · 0) (counts_of_ne id hne max _).1
    next => rfl

theorem rollbackCount_counted {label : Label ν} {held : Bool} {id' : Bytes32} {i : Nat} (input : Input)
    (howes : (contract (net.ctx label.node) label.job).owes held (.rollbackCount id'))
    (hi : gs[i]? = some (label, held)) (hJ : Counted v id net s gs) :
    Counted v id net ((net.system.logged entries).apply label (.rollbackCount id') input s).2
      (gs.set i (label, (contract (net.ctx label.node) label.job).next held (.rollbackCount id')
        ((net.system.logged entries).apply label (.rollbackCount id') input s).1)) := by
  obtain ⟨hheld, hsender⟩ := howes
  have hcount := countOf_apply v id net s label (.rollbackCount id') input
  by_cases hmine : Mine v id label
  · obtain ⟨hnode, hid⟩ := hmine
    obtain rfl : id' = id := Option.some.inj (hsender.symm.trans hid)
    rw [if_pos hnode] at hcount
    have hset := heldFor_set v id' hi false
    have hmine : Mine v id' label := ⟨hnode, hid⟩
    simp only [hmine, hheld, true_and, Bool.false_eq_true, if_false, if_true, Nat.add_zero] at hset
    have hstored : ((net.system.logged entries).apply label (.rollbackCount id') input s).2 =
        ((net.apply label (.rollbackCount id') input s.1).2, s.2) :=
      Prod.ext rfl (List.append_nil _)
    have hcount' : (countOf v id' (net.apply label (.rollbackCount id') input s.1).2).toNat =
        (countOf v id' s.1).toNat - 1 := by
      rw [hcount]
      exact rollbackCount_eq id' _
    obtain ⟨hold, hbound⟩ := hJ
    rw [hstored]
    constructor
    · dsimp only
      rw [hcount']
      change _ + heldFor v id' (gs.set i (label, false)) ≤ _
      omega
    · change _ + heldFor v id' (gs.set i (label, false)) ≤ _
      dsimp only
      omega
  · refine hJ.quiet hi (Or.inl ?_) rfl _ fun h => absurd h hmine
    refine le_of_eq (congrArg UInt32.toNat (hcount.trans ?_).symm)
    split
    next hnode =>
      have hne : id' ≠ id := by
        rintro rfl
        exact hmine ⟨hnode, hsender⟩
      exact congrArg (Option.getD · 0) (counts_of_ne id hne 0 _).2
    next => rfl

theorem apply_counted {label : Label ν} {held : Bool} {e : Op} {i : Nat} (input : Input)
    (hok : Spares v id label e s.1) (howes : (contract (net.ctx label.node) label.job).owes held e)
    (hi : gs[i]? = some (label, held)) (hJ : Counted v id net s gs) :
    Counted v id net ((net.system.logged entries).apply label e input s).2
      (gs.set i (label, (contract (net.ctx label.node) label.job).next held e
        ((net.system.logged entries).apply label e input s).1)) := by
  have hquiet (he : CountsNothing e) : (countOf v id s.1).toNat ≤
      (countOf v id (net.apply label e input s.1).2).toNat := by
    rw [countOf_apply, apply_counts _ _ _ _ (Or.inl he)]
    split
    · exact le_refl _
    · exact le_refl _
  cases e with
  | putChunk hash data => exact putChunk_counted input howes hi hJ
  | reserveCount id' max => exact reserveCount_counted input howes hi hJ
  | rollbackCount id' => exact rollbackCount_counted input howes hi hJ
  | retainCounts known =>
    refine hJ.quiet hi ?_ rfl _ fun _ => rfl
    have hcount := countOf_apply v id net s label (.retainCounts known)
      input
    by_cases hnode : label.node = v
    · rw [if_pos hnode] at hcount
      rcases hok hnode with hknown | hzero
      · refine Or.inl (le_of_eq (congrArg UInt32.toNat ?_))
        exact (hcount.trans (congrArg (Option.getD · 0) (if_pos hknown))).symm
      · right
        have h := hJ.count
        rw [hzero] at h
        exact Nat.eq_zero_of_le_zero h
    · rw [if_neg hnode] at hcount
      exact Or.inl (le_of_eq (congrArg UInt32.toNat hcount.symm))
  | sendResponse addr msg =>
    refine hJ.quiet hi (Or.inl (hquiet trivial)) ?_ _ fun _ => rfl
    dsimp only [entries]
    split
    · rfl
    · rfl
  | _ => exact hJ.quiet hi (Or.inl (hquiet trivial)) rfl _ fun _ => rfl

theorem start_counted {x : Start ν} {s' : NetState ν} {label : Label ν} {t : NodeTask Unit}
    (hok : SparesStart v id x s.1) (hJ : Counted v id net s gs)
    (hx : net.start x s.1 = some (s', label, t)) :
    Counted v id net (s', s.2) (gs ++ [(label, false)]) := by
  obtain ⟨hold, hbound⟩ := hJ
  obtain ⟨-, -, rfl, -⟩ := start_some net hx
  have hheld : heldFor v id (gs ++ [(label, false)]) = heldFor v id gs := by
    simp only [heldFor, List.countP_append, List.countP_singleton, Bool.false_eq_true, and_false,
      decide_false, if_false, Nat.add_zero]
  refine ⟨?_, by rw [hheld]; exact hbound⟩
  rw [hheld]
  have hsame : countOf v id (net.begun s.1 x) = countOf v id s.1 := by
    cases x with
    | restart node now =>
      by_cases hnode : node = v
      · subst hnode
        rw [hok rfl]
        simp only [Network.begun, countOf, Function.update_self, Network.restarted, Option.getD_none]
      · simp only [Network.begun, countOf, Function.update_of_ne (Ne.symm hnode)]
    | _ => rfl
  change _ ≤ (countOf v id (net.begun s.1 x)).toNat
  rw [hsame]
  exact hold

end

/-! ## Runs -/

variable (net : Network ν)

/-- The nodes that have not begun, with an empty log. -/
def unlogged (nodes : ν → NodeState) : Pool (NetState ν × List (Entry ν)) (Label ν) Op Op.Result :=
  ⟨((Network.fresh nodes).state, []), []⟩

/-- The network with the log of what was put and answered. -/
abbrev quotaSystem : System (NetState ν × List (Entry ν)) (Label ν) Input (Start ν) Op Op.Result :=
  net.system.logged entries

/-- In a run in which neither a prune nor a restart drops the count of the sender, the node answers no
more requests of the sender with success than the quota allows, and so adds no more chunks. -/
theorem added_le_quota (nodes : ν → NodeState) (as : List (Action (Start ν) Input))
    (hspares : Meets (quotaSystem net).step
      (Allows (fun x s => SparesStart v id x s.1) fun label e _ s => Spares v id label e s.1)
      (unlogged nodes) as) :
    addedFor v id (run (quotaSystem net).step (unlogged nodes) as).state.2 ≤
      (net.ctx v).config.maxChunksPerPeer.toNat := by
  have hfresh : ∃ gs, Kept (fun label => contract (net.ctx label.node) label.job)
      (unlogged nodes) gs ∧ Counted v id net (unlogged nodes).state gs :=
    ⟨[], .nil, Nat.zero_le _, Nat.zero_le _⟩
  have hstart x s s' label t gs (hok : SparesStart v id x s.1) (hJ : Counted v id net s gs)
      (hx : (quotaSystem net).start x s = some (s', label, t)) :
      ∃ held, Keeps (contract (net.ctx label.node) label.job) (fun _ _ => True) held t ∧
        Counted v id net s' (gs ++ [(label, held)]) := by
    obtain ⟨⟨s'', label', t'⟩, hx', heq⟩ := Option.map_eq_some_iff.mp hx
    cases heq
    obtain ⟨-, -, -, rfl⟩ := start_some net hx'
    exact ⟨false, task_keeps (net.ctx label.node) label.job, start_counted hok hJ hx'⟩
  obtain ⟨gs, -, hJ⟩ := run_kept hstart
    (fun label held e input s gs i hok howes hi hJ =>
      ⟨trivial, apply_counted input hok howes hi hJ⟩) hfresh hspares
  exact (addedFor_le v id _).trans (Nat.le_of_add_right_le hJ.bound)

end

/-! ## Two chunks of a client -/

/-- The request of a client to store a chunk. -/
def clientSeven : Message := { putSeven with clientMode := true }

def clientEight : Message := { messageOf key1 8 (.putChunkRequest (Sha256.digest [8]) [8])
  [125, 255, 219, 184, 116, 213, 183, 33, 98, 5, 93, 208, 139, 214, 132, 114, 143, 209, 11, 249,
   218, 197, 31, 11, 197, 137, 29, 241, 207, 227, 189, 254, 154, 186, 132, 195, 109, 117, 110, 252,
   79, 235, 30, 174, 167, 188, 78, 22, 39, 1, 124, 242, 67, 64, 251, 5, 216, 220, 202, 114, 206,
   252, 183, 10] with clientMode := true }

/-- One node that takes one chunk of each peer. -/
def single : Network Unit where
  ctx _ :=
    let ctx := contextWith (.knowing [⟨Bytes32.fill 1, key1, [signedPart clientSeven, signedPart clientEight]⟩,
      ⟨Bytes32.fill 2, key2, []⟩] [])
    { ctx with config := { ctx.config with maxChunksPerPeer := 1 } }
  addr _ := .v4 127 0 0 1 4433

def runs (i n : Nat) : List (Action (Start Unit) Input) := List.replicate n (.run i quietInput)

/-- A cleanup, and the first chunk. -/
def cleanupFirst : List (Action (Start Unit) Input) :=
  List.flatten [[.start (.cleanup ())], runs 0 3,
    [.start (.inject () (.v4 127 0 0 1 4434) clientSeven)], runs 1 4]

theorem added_le_quota_client :
    addedFor () clientSeven.senderId
      (run (quotaSystem single).step (unlogged fun _ => freshState) cleanupFirst).state.2 = 1 ∧
    addedFor () clientSeven.senderId
      (run (quotaSystem single).step (unlogged fun _ => freshState) cleanupFirst).state.2 ≤
        (single.ctx ()).config.maxChunksPerPeer.toNat :=
  ⟨by decide +kernel,
    added_le_quota () clientSeven.senderId single (fun _ => freshState) cleanupFirst
      (by decide +kernel)⟩

/-- Another cleanup, and the second chunk. -/
def cleanupBetween : List (Action (Start Unit) Input) :=
  List.flatten [cleanupFirst, [.start (.cleanup ())], runs 2 3,
    [.start (.inject () (.v4 127 0 0 1 4434) clientEight)], runs 3 4]

/-- A client is in no routing table, so the cleanup drops its count. -/
theorem cleanup_resets_quota :
    (single.ctx ()).config.maxChunksPerPeer.toNat = 1 ∧
    addedFor () clientSeven.senderId
      (run (quotaSystem single).step (unlogged fun _ => freshState) cleanupBetween).state.2 = 2 :=
  ⟨by decide +kernel, by decide +kernel⟩

end TesserasDht.PeerQuota
