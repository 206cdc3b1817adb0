import TesserasDht.Admission
import TesserasDht.ClosestNodes

/-!
# A full bucket and its least recently seen peer

The handler that finds a bucket full looks the first peer of the bucket up again, and pings the first of
its addresses. A peer with no address is never pinged, and so never replaced.
-/

open Lib Lib.Runs Lib.Tasks TesserasDht.Routing

namespace TesserasDht.Eviction

open Admission (Admissible AnswerOp answer_performs rejection_eq_none_iff fromBytes_inj)
open ClosestNodes (dist_self)
open Lookup (closer_iff)

/-! ## The lookup of one peer -/

theorem walk_one (t : RoutingTable) (rounds lo hi : Nat) {candidates : List NodeInfo} (h : candidates ≠ []) :
    t.walk 1 rounds lo hi candidates = candidates := by
  have hlen := List.length_pos_of_ne_nil h
  cases rounds with
  | zero => rfl
  | succ rounds => rw [RoutingTable.walk, if_neg (by omega)]

theorem closestNodes_first {t : RoutingTable} {lrs : NodeInfo} {rest : List NodeInfo}
    (h : (t.bucket (t.bucketIndex lrs.nodeId)).nodes = lrs :: rest) : t.closestNodes lrs.nodeId 1 = [lrs] := by
  have hat : t.nodesAt (t.bucketIndex lrs.nodeId).val = lrs :: rest := by
    rw [RoutingTable.nodesAt, List.getElem?_eq_getElem (by rw [t.len]; exact (t.bucketIndex lrs.nodeId).isLt)]
    exact h
  obtain ⟨more, hwalk⟩ : ∃ more, t.walk 1 256 ((t.bucketIndex lrs.nodeId).val + 1)
      ((t.bucketIndex lrs.nodeId).val + 1) [] = lrs :: more := by
    rw [RoutingTable.walk, if_pos (by simp), Nat.add_sub_cancel, if_pos (Nat.succ_pos _), hat]
    split
    · exact ⟨_, walk_one _ _ _ _ (by simp)⟩
    · exact ⟨_, walk_one _ _ _ _ (by simp)⟩
  rw [RoutingTable.closestNodes, hwalk, List.insertionSort_cons]
  -- Nothing is closer to the peer than the peer itself.
  cases (more.insertionSort (RoutingTable.closer lrs.nodeId)) with
  | nil => rfl
  | cons n ns =>
    have hle : RoutingTable.closer lrs.nodeId lrs n := by
      rw [closer_iff, dist_self]
      exact Nat.zero_le _
    rw [List.orderedInsert_cons_of_le _ _ hle]
    rfl

/-! ## Reachable tables -/

theorem run_home (now : Nat) (localId : NodeId) (k : Nat) {ops : List TableOp}
    (hok : Meets TableRun.step Allowed (TableRun.start now localId k) ops) :
    Admission.Placed (run TableRun.step (TableRun.start now localId k) ops).table := by
  intro i n hn
  rcases Nat.eq_zero_or_pos k with rfl | hk
  · rw [ClosestNodes.run_empty] at hn
    cases hn
  · have hinv := run_inv (step_inv hk) (inv_start now localId k) hok
    obtain ⟨-, hplace⟩ := (hinv.buckets i).placed n.nodeId (Or.inl (List.mem_map_of_mem hn))
    ext
    simp only [RoutingTable.bucketIndex, hinv.local_eq, hplace]
    omega

/-! ## The eviction -/

theorem kbucket_insert_full {b : KBucket} (now : Nat) {node lrs : NodeInfo} {rest : List NodeInfo}
    (hnodes : b.nodes = lrs :: rest) (hfull : b.isFull = true) (hnew : node.nodeId ∉ ids b.nodes) :
    b.insert now node = .ok (b.addToCache node, .bucketFull lrs.nodeId) := by
  rw [KBucket.insert, (find_none_iff b.nodes node.nodeId).mpr hnew]
  simp only [hfull, Bool.not_true, Bool.false_eq_true, if_false]
  rw [hnodes]

theorem kbucket_evict_first (b : KBucket) (now : Nat) (node : NodeInfo) {lrs : NodeInfo} {rest : List NodeInfo}
    (hnodes : b.nodes = lrs :: rest) : (b.evictAndInsert now lrs.nodeId node).1.nodes = rest ++ [node] := by
  rw [KBucket.evictAndInsert, hnodes, if_pos (by simp)]
  simp

section

variable (ctx : HandlerContext) (b : Build) (sha256 : Bytes → Hash) (inputs : Nat → Input)

/-- The table after the ping of a peer that was found. The fourth operation awaits the answer. -/
theorem exec_evict_table {lrs : NodeInfo} (node : NodeInfo) (n : Nat) (s : NodeState)
    (hfound : s.routingTable.closestNodes lrs.nodeId 1 = [lrs]) (hdead : (inputs (n + 3)).answer = none) :
    (exec (Op.apply b sha256) inputs n (ctx.evictUnresponsive lrs.nodeId node) s).2.routingTable =
      if lrs.addresses = [] then s.routingTable
      else (s.routingTable.evictAndInsert (inputs (n + 4)).now lrs.nodeId node).1 := by
  unfold HandlerContext.evictUnresponsive
  rw [perform_bind, exec]
  dsimp only [Op.apply]
  rw [hfound]
  cases haddr : lrs.addresses with
  | nil => simp [haddr]
  | cons addr rest =>
    simp [HandlerContext.ownMessage, sendRequestAny, exec, Op.apply, haddr, hdead]

theorem answerOp_table {msg : Message} {e : Op} (he : AnswerOp msg e) (input : Input) (s : NodeState) :
    (Op.apply b sha256 e input s).2.routingTable = s.routingTable := by
  cases e with
  | addProvider =>
    dsimp only [Op.apply]
    split
    · rfl
    · split <;> rfl
  | random | closestNodes | getProviders | send | await | sendResponse | checkRelay | checkWrite | getChunk
  | putChunk | reserveCount | rollbackCount => rfl
  | _ => exact he.elim

theorem exec_answer_table (fromAddr : SocketAddr) (msg : Message) (n : Nat) (s : NodeState) :
    (exec (Op.apply b sha256) inputs n (ctx.answer fromAddr msg) s).2.routingTable = s.routingTable :=
  exec_performs (I := fun s' => s'.routingTable = s.routingTable)
    (fun _ n s' he hs => (answerOp_table b sha256 he (inputs n) s').trans hs)
    (answer_performs ctx fromAddr msg) rfl n

/-- Only the update of the table by the sender counts. -/
theorem exec_handler_table (fromAddr : SocketAddr) {msg : Message} (hadm : Admissible ctx msg)
    (hmode : msg.clientMode = false) (s : NodeState) :
    (exec (Op.apply b sha256) inputs 0 (ctx.handleInboundMessage fromAddr msg) s).2.routingTable =
      (exec (Op.apply b sha256) inputs 0 (ctx.insertSender fromAddr msg) s).2.routingTable := by
  unfold HandlerContext.handleInboundMessage
  rw [(rejection_eq_none_iff ctx msg).mpr hadm]
  simp only [hmode, Bool.false_eq_true, if_false]
  rw [exec_bind]
  split
  · rfl
  · exact exec_answer_table ..

theorem exec_insertSender_self (fromAddr : SocketAddr) {msg : Message} (s : NodeState)
    (hself : NodeId.fromBytes msg.senderId = s.routingTable.localId) :
    (exec (Op.apply b sha256) inputs 0 (ctx.insertSender fromAddr msg) s).2.routingTable = s.routingTable := by
  have hins (now now' : Nat) : s.routingTable.insert now
      (NodeInfo.new now' (NodeId.fromBytes msg.senderId) msg.senderKey [fromAddr]) =
        .ok (s.routingTable, .updated) := by
    exact if_pos hself
  simp only [HandlerContext.insertSender, perform_bind, exec, Op.apply, hins]
  rfl

/-- The bucket of the sender, of which no other task changes anything meanwhile. -/
theorem exec_insertSender_full (fromAddr : SocketAddr) {msg : Message} (s : NodeState) {lrs : NodeInfo}
    {rest : List NodeInfo} (hplaced : Admission.Placed s.routingTable)
    (hself : NodeId.fromBytes msg.senderId ≠ s.routingTable.localId)
    (hnodes : (s.routingTable.bucket (s.routingTable.bucketIndex (NodeId.fromBytes msg.senderId))).nodes =
      lrs :: rest)
    (hfull : (s.routingTable.bucket (s.routingTable.bucketIndex (NodeId.fromBytes msg.senderId))).isFull = true)
    (hnew : NodeId.fromBytes msg.senderId ∉ ids (lrs :: rest)) (hdead : (inputs 5).answer = none) :
    ((exec (Op.apply b sha256) inputs 0 (ctx.insertSender fromAddr msg) s).2.routingTable.bucket
        (s.routingTable.bucketIndex (NodeId.fromBytes msg.senderId))).nodes =
      if lrs.addresses = [] then lrs :: rest
      else rest ++ [NodeInfo.new (inputs 0).now (NodeId.fromBytes msg.senderId) msg.senderKey [fromAddr]] := by
  generalize hnode : NodeInfo.new (inputs 0).now (NodeId.fromBytes msg.senderId) msg.senderKey [fromAddr] = node
  have hid : node.nodeId = NodeId.fromBytes msg.senderId := by
    rw [← hnode]
    rfl
  rw [← hid] at hself hnodes hfull hnew ⊢
  have hindex := hplaced _ lrs (by rw [hnodes]; exact List.mem_cons_self)
  generalize hi : s.routingTable.bucketIndex node.nodeId = i at *
  generalize ht : s.routingTable.setBucket i ((s.routingTable.bucket i).addToCache node) = t
  have hins : s.routingTable.insert (inputs 1).now node = .ok (t, .bucketFull lrs.nodeId) := by
    rw [RoutingTable.insert, if_neg hself]
    dsimp only
    rw [hi, kbucket_insert_full _ hnodes hfull (by rw [hnodes]; exact hnew), ← ht]
    rfl
  have hbucket : (t.bucket i).nodes = lrs :: rest := by
    rw [← ht, bucket_setBucket, if_pos rfl, ← hnodes]
    rfl
  have hhome : t.bucketIndex lrs.nodeId = i := by
    rw [← ht]
    exact hindex
  have hfound : t.closestNodes lrs.nodeId 1 = [lrs] := closestNodes_first (by rw [hhome]; exact hbucket)
  have htable := exec_evict_table ctx b sha256 inputs node 2 { s with routingTable := t } hfound hdead
  unfold HandlerContext.insertSender
  rw [perform_bind, exec]
  dsimp only [Op.apply]
  rw [hnode, perform_bind, exec]
  simp only [Op.apply, hins]
  rw [exec_bind]
  refine (congrArg (fun t' : RoutingTable => (t'.bucket i).nodes) htable).trans ?_
  split
  · exact hbucket
  · rw [RoutingTable.evictAndInsert]
    dsimp only
    rw [hhome, bucket_setBucket, if_pos rfl, kbucket_evict_first _ _ _ hbucket]

end

/-- The reported peer makes room: it is the first peer, it has an address, and its id is there once. -/
def Evictable (nodes : List NodeInfo) : Prop :=
  ∃ lrs, nodes.head? = some lrs ∧ lrs.addresses ≠ [] ∧ lrs.nodeId ∉ ids nodes.tail

theorem unresponsive_evicted_iff (now : Nat) (localId : NodeId) (k : Nat) (ops : List TableOp)
    (hok : Meets TableRun.step Allowed (TableRun.start now localId k) ops) (ctx : HandlerContext)
    (inputs : Nat → Input) (fromAddr : SocketAddr) (msg : Message) (s : NodeState)
    (htable : s.routingTable = (run TableRun.step (TableRun.start now localId k) ops).table)
    (hadm : Admissible ctx msg) (hmode : msg.clientMode = false)
    (hfull : (s.routingTable.bucket (s.routingTable.bucketIndex (NodeId.fromBytes msg.senderId))).isFull = true)
    (hnew : NodeId.fromBytes msg.senderId ∉
      ids (s.routingTable.bucket (s.routingTable.bucketIndex (NodeId.fromBytes msg.senderId))).nodes)
    (hdead : (inputs 5).answer = none) :
    let s' := (exec (Op.apply ctx.build ctx.crates.sha256) inputs 0 (ctx.handleInboundMessage fromAddr msg) s).2
    let i := s.routingTable.bucketIndex (NodeId.fromBytes msg.senderId)
    (∃ lrs, (s.routingTable.bucket i).nodes.head? = some lrs ∧
        lrs.nodeId ∉ ids (s'.routingTable.bucket i).nodes ∧
        NodeId.fromBytes msg.senderId ∈ ids (s'.routingTable.bucket i).nodes) ↔
      NodeId.fromBytes msg.senderId ≠ s.routingTable.localId ∧ Evictable (s.routingTable.bucket i).nodes := by
  intro s' i
  have hplaced : Admission.Placed s.routingTable := by
    rw [htable]
    exact run_home now localId k hok
  have hs' : s'.routingTable = _ :=
    exec_handler_table ctx ctx.build ctx.crates.sha256 inputs fromAddr hadm hmode s
  rw [hs']
  by_cases hself : NodeId.fromBytes msg.senderId = s.routingTable.localId
  · rw [exec_insertSender_self _ _ _ _ _ s hself]
    exact iff_of_false (fun ⟨_, _, _, hmem⟩ => hnew hmem) fun h => h.1 hself
  · cases hnodes : (s.routingTable.bucket i).nodes with
    | nil => exact iff_of_false (fun ⟨_, h, _⟩ => by cases h) fun ⟨_, _, h, _⟩ => by cases h
    | cons lrs rest =>
      rw [hnodes] at hnew
      have hafter := exec_insertSender_full ctx ctx.build ctx.crates.sha256 inputs fromAddr s hplaced hself hnodes
        hfull hnew hdead
      have hne : lrs.nodeId ≠ NodeId.fromBytes msg.senderId := by
        intro he
        exact hnew (he ▸ List.mem_cons_self)
      rw [hafter]
      simp only [List.head?_cons, Option.some.injEq, exists_eq_left', Evictable, List.tail_cons, ne_eq, hself,
        not_false_eq_true, true_and]
      split
      next haddr => exact iff_of_false (fun h => h.1 List.mem_cons_self) fun h => h.1 haddr
      next haddr => simp [ids, NodeInfo.new, haddr, hne]

/-! ## A full bucket -/

/-- Twenty peers fill the bucket of the sender of `putSeven`. The first was heard of with these addresses. -/
def fullOps (addrs : List SocketAddr) : List TableOp :=
  .insert 1 { peerOf 1 with addresses := addrs } ::
    (List.range 19).map fun i => .insert (i + 2) (peerOf (UInt8.ofNat (i + 2)))

def ownId : NodeId := NodeId.fromBytes (Sha256.digest Admission.key2.bytes)

def fullState (addrs : List SocketAddr) : NodeState :=
  { Admission.freshState with
    routingTable := (run TableRun.step (TableRun.start 0 ownId 20) (fullOps addrs)).table }

def senderBucket : Fin 256 :=
  (fullState []).routingTable.bucketIndex (NodeId.fromBytes Admission.putSeven.senderId)

/-- The state after the message, with no answer to the ping. -/
def fullAfter (addrs : List SocketAddr) : NodeState :=
  let ctx := Admission.contextWith Admission.putCrates
  (exec (Op.apply ctx.build ctx.crates.sha256) (fun _ => Admission.quietInput) 0
    (ctx.handleInboundMessage (.v4 127 0 0 1 4434) Admission.putSeven) (fullState addrs)).2

theorem unresponsive_evicted_iff_addressed :
    ∃ lrs, ((fullState [.v4 127 0 0 1 4433]).routingTable.bucket senderBucket).nodes.head? = some lrs ∧
      lrs.nodeId ∉ ids ((fullAfter [.v4 127 0 0 1 4433]).routingTable.bucket senderBucket).nodes ∧
      NodeId.fromBytes Admission.putSeven.senderId ∈
        ids ((fullAfter [.v4 127 0 0 1 4433]).routingTable.bucket senderBucket).nodes := by
  have hindex : (fullState [.v4 127 0 0 1 4433]).routingTable.bucketIndex
      (NodeId.fromBytes Admission.putSeven.senderId) = senderBucket := by decide +kernel
  have h := unresponsive_evicted_iff 0 ownId 20 (fullOps [.v4 127 0 0 1 4433]) (by decide +kernel)
    (Admission.contextWith Admission.putCrates) (fun _ => Admission.quietInput) (.v4 127 0 0 1 4434)
    Admission.putSeven (fullState [.v4 127 0 0 1 4433]) (by rw [fullState])
    ((rejection_eq_none_iff _ _).mp (by decide +kernel)) (by decide) (by decide +kernel) (by decide +kernel)
    (by rfl)
  simp only [hindex] at h
  simp only [fullAfter]
  exact h.mpr ⟨by decide +kernel, peerOf 1, by decide +kernel, by decide, by decide +kernel⟩

/-- The first peer came from an answer that named it without an address. -/
theorem peer_without_address_stays :
    Meets TableRun.step Allowed (TableRun.start 0 ownId 20) (fullOps []) ∧
      Admissible (Admission.contextWith Admission.putCrates) Admission.putSeven ∧
      ((fullState []).routingTable.bucket senderBucket).isFull = true ∧
      NodeId.fromBytes Admission.putSeven.senderId ∉ ids ((fullState []).routingTable.bucket senderBucket).nodes ∧
      ((fullAfter []).routingTable.bucket senderBucket).nodes =
        ((fullState []).routingTable.bucket senderBucket).nodes :=
  ⟨by decide +kernel, (rejection_eq_none_iff _ _).mp (by decide +kernel), by decide +kernel, by decide +kernel,
    by decide +kernel⟩

end TesserasDht.Eviction
