import TesserasDht.Lib.Streaks
import TesserasDht.Peers
import TesserasDht.Routines

/-!
# Are evicted peers failing?

A failure of a peer is counted in its bucket, and an insertion resets the count. What the node heard
of the peer is not looked at, so the count is no more than the failures since the last insertion.
-/

open Lib Lib.Lists Lib.Runs Lib.Streaks Lib.Tasks

namespace TesserasDht.FailureCounts

open Admission Peers Routing Routines

/-! ## The counts of a bucket -/

/-- Each node has failed no more often than `c` says. If the bucket has two nodes of one id, only the
first was charged, and nodes in the cache were not. -/
structure Tally (c : NodeId → Nat) (b : KBucket) : Prop where
  counted : ∀ n ∈ b.nodes, n.failCount.toNat ≤ c n.nodeId
  first : b.nodes.Pairwise fun m n => m.nodeId = n.nodeId → n.failCount = 0
  cached : ∀ n ∈ b.replacementCache, n.failCount = 0

section

variable {c : NodeId → Nat} {b b' : KBucket}

theorem tally_new (now k : Nat) : Tally c (KBucket.new now k) :=
  ⟨by rintro _ ⟨⟩, .nil, by rintro _ ⟨⟩⟩

theorem Tally.elsewhere (h : Tally c b) {id : NodeId} (hid : id ∉ ids b.nodes) (v : Nat) :
    Tally (Function.update c id v) b := by
  refine ⟨fun n hn => ?_, h.first, h.cached⟩
  rw [Function.update_of_ne]
  · exact h.counted n hn
  · rintro rfl
    exact hid (List.mem_map_of_mem hn)

theorem Tally.renew (h : Tally c b) {l new : List NodeInfo} (hl : l.Sublist b.nodes)
    (hnew : ∀ n ∈ new, n.failCount = 0) (hnodes : b'.nodes = l ++ new)
    (hcache : ∀ n ∈ b'.replacementCache, n.failCount = 0) : Tally c b' := by
  refine ⟨fun n hn => ?_, ?_, hcache⟩
  · rw [hnodes] at hn
    rcases List.mem_append.mp hn with hn | hn
    · exact h.counted n (hl.subset hn)
    · rw [hnew n hn]
      exact Nat.zero_le _
  · rw [hnodes, List.pairwise_append]
    refine ⟨h.first.sublist hl, ?_, fun m _ n hn _ => hnew n hn⟩
    exact List.pairwise_of_forall_mem_list fun m _ n hn _ => hnew n hn

theorem mem_modifyFirst_id {l : List NodeInfo} (h : l.Pairwise fun m n => m.nodeId = n.nodeId → n.failCount = 0)
    {f : NodeInfo → NodeInfo} {id : NodeId} {n : NodeInfo}
    (hn : n ∈ modifyFirst (fun n => n.nodeId = id) f l) :
    (n ∈ l ∧ n.nodeId ≠ id) ∨ n.failCount = 0 ∨ ∃ m ∈ l, m.nodeId = id ∧ n = f m := by
  induction l with
  | nil => cases hn
  | cons x xs ih =>
    obtain ⟨hx, hxs⟩ := List.pairwise_cons.mp h
    by_cases hid : x.nodeId = id
    · rw [modifyFirst, if_pos (by simpa using hid)] at hn
      rcases List.mem_cons.mp hn with rfl | hn
      · exact Or.inr (Or.inr ⟨x, List.mem_cons_self, hid, rfl⟩)
      · by_cases hnid : n.nodeId = id
        · exact Or.inr (Or.inl (hx n hn (hid.trans hnid.symm)))
        · exact Or.inl ⟨List.mem_cons_of_mem _ hn, hnid⟩
    · rw [modifyFirst, if_neg (by simpa using hid)] at hn
      rcases List.mem_cons.mp hn with rfl | hn
      · exact Or.inl ⟨List.mem_cons_self, hid⟩
      · rcases ih hxs hn with ⟨hmem, hne⟩ | hzero | ⟨m, hm, hmid, rfl⟩
        · exact Or.inl ⟨List.mem_cons_of_mem _ hmem, hne⟩
        · exact Or.inr (Or.inl hzero)
        · exact Or.inr (Or.inr ⟨m, List.mem_cons_of_mem _ hm, hmid, rfl⟩)

theorem pairwise_modifyFirst_id {l : List NodeInfo}
    (h : l.Pairwise fun m n => m.nodeId = n.nodeId → n.failCount = 0) {f : NodeInfo → NodeInfo}
    (hf : ∀ n, (f n).nodeId = n.nodeId) (id : NodeId) :
    (modifyFirst (fun n => n.nodeId = id) f l).Pairwise
      fun m n => m.nodeId = n.nodeId → n.failCount = 0 := by
  induction l with
  | nil => exact .nil
  | cons x xs ih =>
    obtain ⟨hx, hxs⟩ := List.pairwise_cons.mp h
    by_cases hid : x.nodeId = id
    · rw [modifyFirst, if_pos (by simpa using hid), List.pairwise_cons]
      refine ⟨fun n hn => ?_, hxs⟩
      rw [hf]
      exact hx n hn
    · rw [modifyFirst, if_neg (by simpa using hid), List.pairwise_cons]
      refine ⟨fun n hn heq => ?_, ih hxs⟩
      rcases mem_modifyFirst hn with hn | ⟨m, -, hm, rfl⟩
      · exact hx n hn heq
      · rw [hf] at heq
        exact absurd (heq.trans (by simpa using hm)) hid

/-- The first node of an id changes, and its count with it. -/
theorem Tally.modify (h : Tally c b) {f : NodeInfo → NodeInfo} (hf : ∀ n, (f n).nodeId = n.nodeId)
    {id : NodeId} {v : Nat} (hv : ∀ n ∈ b.nodes, n.nodeId = id → (f n).failCount.toNat ≤ v)
    (hnodes : b'.nodes = modifyFirst (fun n => n.nodeId = id) f b.nodes)
    (hcache : b'.replacementCache = b.replacementCache) : Tally (Function.update c id v) b' := by
  refine ⟨fun n hn => ?_, ?_, by rw [hcache]; exact h.cached⟩
  · rw [hnodes] at hn
    rcases mem_modifyFirst_id h.first hn with ⟨hmem, hne⟩ | hzero | ⟨m, hm, hid, rfl⟩
    · rw [Function.update_of_ne hne]
      exact h.counted n hmem
    · rw [hzero]
      exact Nat.zero_le _
    · rw [hf, hid, Function.update_self]
      exact hv m hm hid
  · rw [hnodes]
    exact pairwise_modifyFirst_id h.first hf id

theorem insert_tally {now : Nat} {node : NodeInfo} {r : InsertResult} (h : Tally c b)
    (hnode : node.failCount = 0) (hins : b.insert now node = .ok (b', r)) :
    Tally (Function.update c node.nodeId 0) b' := by
  unfold KBucket.insert at hins
  split at hins
  · cases hins
    refine h.modify ?_ (fun n _ _ => ?_) rfl rfl
    · intro n
      rfl
    · exact Nat.le_refl 0
  next hfind =>
    have hreset := h.elsewhere ((find_none_iff _ _).mp hfind) 0
    split at hins
    · cases hins
      exact hreset.renew (List.Sublist.refl _) (by simpa using hnode) rfl h.cached
    · split at hins
      · cases hins
      · cases hins
        refine ⟨hreset.counted, h.first, fun n hn => ?_⟩
        rcases List.mem_append.mp (List.mem_of_mem_drop hn) with hn | hn
        · exact h.cached n (List.mem_of_mem_filter hn)
        · rw [List.mem_singleton.mp hn]
          exact hnode

theorem evictAndInsert_tally (h : Tally c b) (now : Nat) (failedId : NodeId) {node : NodeInfo}
    (hnode : node.failCount = 0) : Tally c (b.evictAndInsert now failedId node).1 := by
  unfold KBucket.evictAndInsert
  split
  · exact h.renew List.eraseP_sublist (by simpa using hnode) rfl
      fun n hn => h.cached n (List.mem_of_mem_filter hn)
  · exact h

theorem remove_tally (h : Tally c b) (id : NodeId) : Tally c (b.remove id).1 := by
  unfold KBucket.remove
  split
  · refine h.renew List.eraseP_sublist (fun n hn => ?_) rfl
      fun n hn => h.cached n (List.mem_of_mem_dropLast hn)
    exact h.cached n (List.mem_of_getLast? (Option.mem_toList.mp hn))
  · exact h

theorem recordFailure_le (n : NodeInfo) :
    n.recordFailure.failCount.toNat ≤ n.failCount.toNat + 1 := by
  unfold NodeInfo.recordFailure
  dsimp only
  split
  next h =>
    rw [h]
    exact Nat.le_succ _
  next =>
    rw [UInt8.toNat_add]
    exact Nat.mod_le _ _

theorem recordFailure_tally (h : Tally c b) {id : NodeId} (hid : id ∈ ids b.nodes) (max : UInt8) :
    Tally (Function.update c id (c id + 1)) (b.recordFailure id max) := by
  unfold KBucket.recordFailure
  split
  next hfind => exact absurd hid ((find_none_iff _ _).mp hfind)
  next node hfind =>
    have hcharged : Tally (Function.update c id (c id + 1)) { b with
        nodes := modifyFirst (fun n => n.nodeId = id) NodeInfo.recordFailure b.nodes } := by
      refine h.modify (f := NodeInfo.recordFailure) (fun _ => rfl) (fun n hn hnid => ?_) rfl rfl
      refine (recordFailure_le n).trans (Nat.succ_le_succ ?_)
      rw [← hnid]
      exact h.counted n hn
    dsimp only
    split
    · exact remove_tally hcharged _
    · exact hcharged

theorem recordFailure_of_not_mem {id : NodeId} (hid : id ∉ ids b.nodes) (max : UInt8) :
    b.recordFailure id max = b := by
  unfold KBucket.recordFailure
  rw [(find_none_iff _ _).mpr hid]

theorem recordFailure_lost {id id' : NodeId} {max : UInt8} (hin : id' ∈ ids b.nodes)
    (hout : id' ∉ ids (b.recordFailure id max).nodes) :
    id' = id ∧ ∃ n ∈ b.nodes, n.nodeId = id ∧ max ≤ n.recordFailure.failCount := by
  constructor
  · rcases (recordFailure_spec b id max).2 with hslots | hslots
    · have hnodes : ids (b.recordFailure id max).nodes = ids b.nodes := congrArg Slots.nodes hslots
      rw [hnodes] at hout
      exact absurd hin hout
    · by_contra hne
      apply hout
      change id' ∈ (slots (b.recordFailure id max)).nodes
      rw [hslots, Slots.remove]
      split
      · exact List.mem_append_left _ ((List.mem_erase_of_ne hne).mpr hin)
      · exact hin
  · unfold KBucket.recordFailure at hout
    split at hout
    · exact absurd hin hout
    next node hfind =>
      dsimp only at hout
      split at hout
      next hmax =>
        exact ⟨node, List.mem_of_find?_eq_some hfind, by simpa using List.find?_some hfind, hmax⟩
      next =>
        have hids : ids (modifyFirst (fun n => n.nodeId = id) NodeInfo.recordFailure b.nodes) =
            ids b.nodes := map_modifyFirst _ NodeInfo.recordFailure _ (fun _ => rfl) _
        rw [hids] at hout
        exact absurd hin hout

end

/-! ## The counts of the table -/

/-- The bucket of an id. -/
def place (me id : NodeId) : Fin 256 := ⟨min (me.commonPrefixLength id) 255, by omega⟩

/-- Every peer is in the bucket of its id, and the counts are in order. -/
structure Books (me : NodeId) (c : NodeId → Nat) (t : RoutingTable) : Prop where
  localId : t.localId = me
  placed : ∀ i, BucketGood (fun n => place me n.nodeId = i) (t.bucket i)
  tally : ∀ i, Tally c (t.bucket i)

/-- The peers in the buckets. -/
def peerIds (t : RoutingTable) : List NodeId := t.buckets.flatMap fun b => ids b.nodes

section

variable {me : NodeId} {c : NodeId → Nat} {t : RoutingTable}

theorem mem_peerIds {id : NodeId} : id ∈ peerIds t ↔ ∃ i, id ∈ ids (t.bucket i).nodes := by
  unfold peerIds
  rw [List.mem_flatMap]
  constructor
  · rintro ⟨b, hb, hid⟩
    obtain ⟨i, hlt, rfl⟩ := List.mem_iff_getElem.mp hb
    exact ⟨⟨i, by rw [← t.len]; exact hlt⟩, hid⟩
  · rintro ⟨i, hid⟩
    exact ⟨t.bucket i, List.get_mem _ _, hid⟩

theorem place_stable (me : NodeId) (i : Fin 256) : Stable fun n => place me n.nodeId = i := by
  intro n m n' hn _ hid _ _ _
  rw [hid]
  exact hn

theorem Books.bucketIndex (h : Books me c t) (id : NodeId) : t.bucketIndex id = place me id := by
  rw [← h.localId]
  rfl

theorem Books.not_mem (h : Books me c t) {id : NodeId} {i : Fin 256} (hi : place me id ≠ i) :
    id ∉ ids (t.bucket i).nodes := by
  intro hid
  obtain ⟨n, hn, rfl⟩ := List.mem_map.mp hid
  exact hi ((h.placed i).1 n hn)

theorem books_new (now : Nat) (me : NodeId) (k : Nat) : Books me c (RoutingTable.new now me k) := by
  refine ⟨rfl, fun i => ?_, fun i => ?_⟩
  · rw [bucket_new]
    exact ⟨by rintro _ ⟨⟩, by rintro _ ⟨⟩⟩
  · rw [bucket_new]
    exact tally_new now k

/-- One bucket changes, and with it the count of one peer of the bucket. -/
theorem Books.setBucket (h : Books me c t) {id : NodeId} {v : Nat} {b : KBucket}
    (hplaced : BucketGood (fun n => place me n.nodeId = place me id) b)
    (htally : Tally (Function.update c id v) b) :
    Books me (Function.update c id v) (t.setBucket (place me id) b) := by
  refine ⟨h.localId, fun i => ?_, fun i => ?_⟩
  · rw [bucket_setBucket]
    split
    next hi =>
      subst hi
      exact hplaced
    next => exact h.placed i
  · rw [bucket_setBucket]
    split
    · exact htally
    next hi => exact (h.tally i).elsewhere (h.not_mem hi) v

theorem insert_books {t' : RoutingTable} {now : Nat} {node : NodeInfo} {r : InsertResult}
    (h : Books me c t) (hnode : node.failCount = 0) (hins : t.insert now node = .ok (t', r)) :
    Books me (if node.nodeId = me then c else Function.update c node.nodeId 0) t' ∧
      ∀ lrs, r = .bucketFull lrs → place me lrs = place me node.nodeId := by
  unfold RoutingTable.insert at hins
  rw [h.localId] at hins
  split at hins
  next hme =>
    cases hins
    rw [if_pos hme]
    exact ⟨h, by rintro _ ⟨⟩⟩
  next hme =>
    rw [h.bucketIndex] at hins
    obtain ⟨⟨b, r'⟩, hb, hins⟩ := bind_ok hins
    cases hins
    rw [if_neg hme]
    have hplaced := h.placed (place me node.nodeId)
    constructor
    · exact h.setBucket (insert_bucketGood (place_stable me _) hplaced rfl hb)
        (insert_tally (h.tally _) hnode hb)
    · rintro lrs rfl
      rcases kbucket_insert_ok hb with ⟨n, hr, hhead, -⟩ | ⟨hne, -⟩
      · cases hr
        exact hplaced.1 n (List.mem_of_mem_head? hhead)
      · exact absurd rfl (hne lrs)

theorem evictAndInsert_books (h : Books me c t) (now : Nat) {failedId : NodeId} {node : NodeInfo}
    (hnode : node.failCount = 0) (hplace : place me node.nodeId = place me failedId) :
    Books me c (t.evictAndInsert now failedId node).1 := by
  unfold RoutingTable.evictAndInsert
  rw [h.bucketIndex]
  have htally := evictAndInsert_tally (h.tally (place me failedId)) now failedId hnode
  rw [← Function.update_eq_self failedId c] at htally ⊢
  exact h.setBucket (evictAndInsert_bucketGood now failedId (h.placed _) hplace) htally

/-- A failure of a peer in the table is counted, and one of any other peer changes nothing. -/
theorem recordFailure_books (h : Books me c t) (id : NodeId) (max : UInt8) :
    Books me (if id ∈ ids (t.bucket (t.bucketIndex id)).nodes then Function.update c id (c id + 1) else c)
      (t.recordFailure id max) := by
  unfold RoutingTable.recordFailure
  rw [h.bucketIndex]
  dsimp only
  have hplaced := recordFailure_bucketGood (fun n hn => hn) id max (h.placed (place me id))
  split
  next hid => exact h.setBucket hplaced (recordFailure_tally (h.tally _) hid max)
  next hid =>
    have htally := h.tally (place me id)
    rw [recordFailure_of_not_mem hid] at hplaced ⊢
    rw [← Function.update_eq_self id c] at htally ⊢
    exact h.setBucket hplaced htally

/-- Only the peer that is charged can be dropped, and only if its count reaches the limit. -/
theorem recordFailure_dropped {id id' : NodeId} {max : UInt8} (hin : id' ∈ peerIds t)
    (hout : id' ∉ peerIds (t.recordFailure id max)) :
    id' = id ∧ ∃ n ∈ (t.bucket (t.bucketIndex id)).nodes, n.nodeId = id ∧
      max ≤ n.recordFailure.failCount := by
  obtain ⟨i, hi⟩ := mem_peerIds.mp hin
  have hnot : id' ∉ ids ((t.recordFailure id max).bucket i).nodes := fun h => hout (mem_peerIds.mpr ⟨i, h⟩)
  unfold RoutingTable.recordFailure at hnot
  rw [bucket_setBucket] at hnot
  split at hnot
  next heq =>
    subst heq
    exact recordFailure_lost hi hnot
  next => exact absurd hi hnot

theorem loadPeers_books (now : Nat) (peers : List NodeInfoSerde) (h : Books me (fun _ => 0) t) :
    Books me (fun _ => 0) (loadPeers now peers t) := by
  induction peers generalizing t with
  | nil => exact h
  | cons p rest ih =>
    refine ih ?_
    dsimp only
    split
    next t' r hins =>
      have hbooks := (insert_books h rfl hins).1
      rwa [Function.update_eq_self, ite_self] at hbooks
    next => exact h

end

/-! ## A failed ping -/

/-- The peer that a failed ping of the address is charged to. -/
def peerAt (t : RoutingTable) (addr : SocketAddr) : Option NodeId :=
  ((t.buckets.find? fun b => b.nodes.any fun n => addr ∈ n.addresses).bind fun b =>
    b.nodes.find? fun n => addr ∈ n.addresses).map NodeInfo.nodeId

section

variable {t : RoutingTable} {addr : SocketAddr} (max : UInt8)

theorem table_ext {t t' : RoutingTable} (hid : t.localId = t'.localId) (hk : t.k = t'.k)
    (hb : t.buckets = t'.buckets) : t = t' := by
  cases t
  cases t'
  cases hid
  cases hk
  cases hb
  rfl

theorem recordFailureByAddr_none (h : peerAt t addr = none) : t.recordFailureByAddr addr max = t := by
  refine table_ext rfl rfl (modifyFirst_eq_self ?_)
  rw [List.find?_eq_none]
  intro b hb hany
  unfold peerAt at h
  cases hfind : t.buckets.find? fun b => b.nodes.any fun n => addr ∈ n.addresses with
  | none => exact List.find?_eq_none.mp hfind b hb hany
  | some b' =>
    have hany' := List.find?_some hfind
    obtain ⟨n, hn, haddr⟩ := List.any_eq_true.mp hany'
    rw [hfind, Option.map_eq_none_iff, Option.bind_some] at h
    exact List.find?_eq_none.mp h n hn haddr

theorem recordFailureByAddr_some {me : NodeId} {c : NodeId → Nat} (h : Books me c t) {id : NodeId}
    (hat : peerAt t addr = some id) :
    t.recordFailureByAddr addr max = t.recordFailure id max ∧
      id ∈ ids (t.bucket (t.bucketIndex id)).nodes := by
  obtain ⟨n, hn, rfl⟩ := Option.map_eq_some_iff.mp hat
  obtain ⟨b, hb, hn⟩ := Option.bind_eq_some_iff.mp hn
  obtain ⟨i, hi, hset⟩ := modifyFirst_eq_set hb
  obtain ⟨hlt, hbucket⟩ := List.getElem?_eq_some_iff.mp hi
  have hlt' : i < 256 := by rwa [← t.len]
  have hb' : t.bucket ⟨i, hlt'⟩ = b := hbucket
  have hmem : n ∈ (t.bucket ⟨i, hlt'⟩).nodes := by
    rw [hb']
    exact List.mem_of_find?_eq_some hn
  have hindex : t.bucketIndex n.nodeId = ⟨i, hlt'⟩ := by
    rw [h.bucketIndex]
    exact (h.placed _).1 n hmem
  constructor
  · refine table_ext rfl rfl ((hset _).trans ?_)
    unfold RoutingTable.recordFailure
    dsimp only
    rw [hn, hindex, hb']
    rfl
  · rw [hindex]
    exact List.mem_map_of_mem hmem

end

/-! ## What came of the dealings with a peer -/

/-- A node, and what came of its dealings with its peers, the newest first. -/
structure Watched where
  node : NodeState
  history : List (Mark NodeId)

/-- The peer that an operation says has failed, and whether the failure is counted. -/
def failure (t : RoutingTable) : Op → Option (NodeId × Bool)
  | .recordFailure id _ => some (id, id ∈ ids (t.bucket (t.bucketIndex id)).nodes)
  | .recordFailureByAddr addr _ => (peerAt t addr).map fun id => (id, true)
  | _ => none

/-- Who sent the answer, and who sent the message in it that a relay passes on. -/
def heardFrom (crates : Crates) : Option Message → List NodeId
  | none => []
  | some resp =>
    let passedOn := match resp.payload with
      | .relayResponse true payload => (crates.fromBytes payload).toList
      | _ => []
    (resp :: passedOn).map fun msg => NodeId.fromBytes msg.senderId

/-- The sender of a message that passes the checks. -/
def acceptedFrom (ctx : HandlerContext) : Duty → List NodeId
  | .inbound _ msg => if ctx.rejection msg = none then [NodeId.fromBytes msg.senderId] else []
  | _ => []

/-- What an operation adds to the history. An insertion marks the peer as seen. -/
def marks (crates : Crates) (t t' : RoutingTable) (e : Op) (r : e.Result) : List (Mark NodeId) :=
  match failure t e with
  | some (id, counted) =>
    ((peerIds t).filter fun id => id ∉ peerIds t').map Mark.dropped ++ [.failed id counted]
  | none => match e, r with
    | .await _, resp => (heardFrom crates resp).map Mark.heard
    | .insert node, .ok _ => if node.nodeId = t.localId then [] else [.reset node.nodeId]
    | _, _ => []

/-- The node with its history. -/
def watch (ctx : HandlerContext) : System Watched Duty Input Duty Op Op.Result where
  apply _ e input s :=
    let (r, node) := e.apply ctx.build ctx.crates.sha256 input s.node
    (r, ⟨node, marks ctx.crates s.node.routingTable node.routingTable e r ++ s.history⟩)
  start duty s :=
    some (⟨s.node, (acceptedFrom ctx duty).map Mark.heard ++ s.history⟩, duty, ctx.perform duty)

/-- The node at its start, with the stores of the last session. -/
def started (ctx : HandlerContext) (now : Nat) (s : NodeState) : Pool Watched Duty Op Op.Result :=
  ⟨⟨Network.restarted now ctx s, []⟩, []⟩

/-- A failure is counted only if each success of the peer that met a counted failure was followed by an
insertion of the peer. -/
def Credited (e : Op) (s : Watched) : Prop :=
  match failure s.node.routingTable e with
  | some (id, true) => stale id s.history = false
  | _ => True

instance (e : Op) (s : Watched) : Decidable (Credited e s) := by
  unfold Credited
  split <;> infer_instance

/-! ## The contract of a task -/

/-- Only fresh nodes are inserted, a node takes the place of one in its own bucket, and the limit is the
configured one. -/
def contract (ctx : HandlerContext) : Contract Unit Op Op.Result where
  owes _ e := match e with
    | .insert node => node.failCount = 0
    | .evictAndInsert f node => node.failCount = 0 ∧ place ctx.nodeId node.nodeId = place ctx.nodeId f
    | .recordFailure _ max => max = ctx.config.maxFailures
    | .recordFailureByAddr _ max => max = ctx.config.maxFailures
    | _ => True
  gets _ e := match e with
    | .insert node => fun (r : Outcome InsertResult) =>
      ∀ lrs, r = .ok (.bucketFull lrs) → place ctx.nodeId node.nodeId = place ctx.nodeId lrs
    | _ => fun _ => True
  next _ _ _ := ()

section

variable (ctx : HandlerContext)

/-- What every task does but the handler of a message. -/
def Plain : Op → Prop
  | .insert node => node.failCount = 0
  | .evictAndInsert _ _ => False
  | .recordFailure _ max => max = ctx.config.maxFailures
  | .recordFailureByAddr _ max => max = ctx.config.maxFailures
  | _ => True

theorem greets_plain : Greets ctx (Plain ctx) where
  random := trivial
  send _ := trivial
  await _ := trivial
  closestNodes _ _ := trivial
  externalAddr := trivial
  now := trivial
  insert _ _ _ _ := rfl
  recordFailure _ := rfl
  recordFailureByAddr _ := rfl
  setExternalAddr _ := trivial

variable {α : Type}

theorem keeps_of_plain {t : NodeTask α} (h : Performs (Plain ctx) t) :
    Keeps (contract ctx) (fun _ _ => True) () t := by
  refine (h.keeps (fun e he => ?_) fun _ _ _ => rfl).mono fun _ _ _ => trivial
  cases e with
  | evictAndInsert f node => exact he.elim
  | _ => exact he

theorem evictUnresponsive_keeps {lrs : NodeId} {node : NodeInfo} (hnode : node.failCount = 0)
    (hplace : place ctx.nodeId node.nodeId = place ctx.nodeId lrs) :
    Keeps (contract ctx) (fun _ _ => True) () (ctx.evictUnresponsive lrs node) := by
  refine Keeps.perform trivial fun closest _ => ?_
  split
  · exact trivial
  · apply (keeps_of_plain ctx (ownMessage_performs ctx trivial _ _)).bind
    intro _ ping _
    apply (keeps_of_plain ctx (request_performs (greets_plain ctx).toTalks)).bind
    intro _ r _
    cases r with
    | some resp => exact trivial
    | none => exact ⟨⟨hnode, hplace⟩, fun _ _ => trivial⟩

theorem insertSender_keeps (fromAddr : SocketAddr) (msg : Message) :
    Keeps (contract ctx) (fun _ _ => True) () (ctx.insertSender fromAddr msg) := by
  refine Keeps.perform trivial fun now _ => Keeps.perform rfl fun r hr => ?_
  split
  · exact trivial
  · split
    · exact ⟨trivial, fun _ _ => trivial⟩
    · exact trivial
  next lrs => exact (evictUnresponsive_keeps ctx rfl (hr lrs rfl)).bind fun _ _ _ => trivial
  · exact trivial

theorem answer_keeps (fromAddr : SocketAddr) (msg : Message) :
    Keeps (contract ctx) (fun _ _ => True) () (ctx.answer fromAddr msg) := by
  refine keeps_of_plain ctx ((answer_performs ctx fromAddr msg).mono fun e he => ?_)
  cases e with
  | insert | evictAndInsert | recordFailure | recordFailureByAddr => exact he.elim
  | _ => exact trivial

theorem handle_keeps (fromAddr : SocketAddr) (msg : Message) :
    Keeps (contract ctx) (fun _ _ => True) () (ctx.handleInboundMessage fromAddr msg) := by
  unfold HandlerContext.handleInboundMessage
  split
  · exact trivial
  · split
    · exact answer_keeps ctx fromAddr msg
    · apply (insertSender_keeps ctx fromAddr msg).bind
      intro _ r _
      cases r with
      | error e => exact trivial
      | ok u => exact answer_keeps ctx fromAddr msg

theorem perform_keeps (duty : Duty) : Keeps (contract ctx) (fun _ _ => True) () (ctx.perform duty) := by
  have hgreets := greets_plain ctx
  cases duty with
  | inbound fromAddr msg => exact handle_keeps ctx fromAddr msg
  | replicate newNode =>
    refine keeps_of_plain ctx ((replicateChunksToNode_performs ctx newNode).mono fun e he => ?_)
    cases e with
    | insert | evictAndInsert | recordFailure | recordFailureByAddr => exact he.elim
    | _ => exact trivial
  | query target peerId addrs =>
    exact keeps_of_plain ctx ((queryPeer_performs ctx hgreets target peerId addrs).bind
      fun _ => performs_pure _)
  | bootstrap addrs => exact keeps_of_plain ctx (doBootstrap_performs ctx hgreets addrs)
  | getProviders key =>
    exact keeps_of_plain ctx ((doGetProviders_performs ctx hgreets (fun _ => trivial) key).bind
      fun _ => performs_pure _)
  | store blocks manifest =>
    exact keeps_of_plain ctx (distributeTessera_performs ctx hgreets (fun _ _ => trivial)
      (fun _ _ _ _ _ => trivial) blocks manifest)
  | request addrs target payload =>
    apply keeps_of_plain
    apply (newMessage_performs ctx hgreets.toTalks payload).bind
    intro msg
    exact (sendWithNatTraversal_performs ctx hgreets.toTalks addrs target msg).bind
      fun _ => performs_pure _
  | save => exact ⟨trivial, fun _ _ => ⟨trivial, fun _ _ => trivial⟩⟩
  | cleanup => exact ⟨trivial, fun _ _ => ⟨trivial, fun _ _ => ⟨trivial, fun _ _ => trivial⟩⟩⟩

end

/-! ## Runs -/

/-- The counts do not exceed the history, and who was dropped had failed at every one of the last
dealings. -/
structure Sound (ctx : HandlerContext) (s : Watched) : Prop where
  books : Books ctx.nodeId (fun id => charged id s.history) s.node.routingTable
  only : OnlyFailing ctx.config.maxFailures.toNat s.history

section

variable {ctx : HandlerContext} {duty : Duty} {s : Watched}

theorem Sound.hear (h : Sound ctx s) (senders : List NodeId) :
    Sound ctx ⟨s.node, senders.map Mark.heard ++ s.history⟩ := by
  refine ⟨?_, h.only.heard senders⟩
  simp only [charged_heard]
  exact h.books

theorem Sound.insert (h : Sound ctx s) {now : Nat} {node : NodeInfo} {t : RoutingTable}
    {r : InsertResult} (hnode : node.failCount = 0)
    (hins : s.node.routingTable.insert now node = .ok (t, r)) :
    Sound ctx ⟨{ s.node with routingTable := t },
      (if node.nodeId = s.node.routingTable.localId then [] else [.reset node.nodeId]) ++ s.history⟩ := by
  have hbooks := (insert_books h.books hnode hins).1
  rw [h.books.localId]
  split at hbooks
  next hme =>
    rw [if_pos hme]
    exact ⟨hbooks, h.only⟩
  next hme =>
    rw [if_neg hme]
    refine ⟨?_, h.only⟩
    have hcharged : (fun id => charged id (.reset node.nodeId :: s.history)) =
        Function.update (fun id => charged id s.history) node.nodeId 0 := by
      funext id
      rw [Function.update_apply]
      simp only [charged, eq_comm]
    rw [← hcharged] at hbooks
    exact hbooks

theorem Sound.fail (h : Sound ctx s) {id : NodeId} {counted : Bool}
    (hcounted : counted = decide (id ∈ ids (s.node.routingTable.bucket
      (s.node.routingTable.bucketIndex id)).nodes))
    (hfresh : counted = true → stale id s.history = false) {t : RoutingTable}
    (ht : t = s.node.routingTable.recordFailure id ctx.config.maxFailures) :
    Sound ctx ⟨{ s.node with routingTable := t },
      (((peerIds s.node.routingTable).filter fun id => id ∉ peerIds t).map Mark.dropped ++
        [.failed id counted]) ++ s.history⟩ := by
  subst ht
  rw [List.append_assoc, List.singleton_append]
  constructor
  · have hbooks := recordFailure_books h.books id ctx.config.maxFailures
    have hcharged : (fun id' => charged id' (.failed id counted :: s.history)) =
        if id ∈ ids (s.node.routingTable.bucket (s.node.routingTable.bucketIndex id)).nodes then
          Function.update (fun id => charged id s.history) id (charged id s.history + 1)
        else
          fun id => charged id s.history := by
      subst hcounted
      funext id'
      split
      next hid =>
        simp only [charged, hid, decide_true, and_true, Function.update_apply, eq_comm]
        split
        next heq => rw [heq]
        next => rfl
      next hid => simp only [charged, hid, decide_false, Bool.false_eq_true, and_false, if_false]
    simp only [charged_dropped]
    rw [hcharged]
    exact hbooks
  · refine OnlyFailing.dropped h.only fun id' hid' => ?_
    obtain ⟨hin, hout⟩ := List.mem_filter.mp hid'
    obtain ⟨rfl, n, hn, hnid, hmax⟩ := recordFailure_dropped hin (by simpa using hout)
    have hmem : id' ∈ ids (s.node.routingTable.bucket (s.node.routingTable.bucketIndex id')).nodes :=
      List.mem_map.mpr ⟨n, hn, hnid⟩
    have hle := (h.books.tally _).counted n hn
    have hlimit := (UInt8.le_iff_toNat_le.mp hmax).trans (recordFailure_le n)
    rw [hnid] at hle
    exact take_outcomes_failed (hfresh (by rw [hcounted]; simpa using hmem)) (by omega) counted

theorem apply_sound {e : Op} (input : Input) (hcredited : Credited e s)
    (howes : (contract ctx).owes () e) (h : Sound ctx s) :
    (contract ctx).gets () e ((watch ctx).apply duty e input s).1 ∧
      Sound ctx ((watch ctx).apply duty e input s).2 := by
  cases e with
  | insert node =>
    dsimp only [watch, Op.apply]
    split
    next t r hins =>
      refine ⟨?_, h.insert howes hins⟩
      rintro lrs ⟨⟩
      exact ((insert_books h.books howes hins).2 lrs rfl).symm
    next => exact ⟨by rintro lrs ⟨⟩, h⟩
  | evictAndInsert f node =>
    exact ⟨trivial, evictAndInsert_books h.books input.now howes.1 howes.2, h.only⟩
  | recordFailure id max =>
    refine ⟨trivial, h.fail rfl (fun hcounted => ?_) (by rw [← howes])⟩
    simpa [Credited, failure, hcounted] using hcredited
  | recordFailureByAddr addr max =>
    refine ⟨trivial, ?_⟩
    change Sound ctx ⟨{ s.node with routingTable := s.node.routingTable.recordFailureByAddr addr max },
      marks ctx.crates s.node.routingTable (s.node.routingTable.recordFailureByAddr addr max)
        (.recordFailureByAddr addr max) () ++ s.history⟩
    cases hat : peerAt s.node.routingTable addr with
    | none =>
      rw [recordFailureByAddr_none max hat]
      simp only [marks, failure, hat, Option.map_none]
      exact h
    | some id =>
      obtain ⟨heq, hmem⟩ := recordFailureByAddr_some max h.books hat
      simp only [marks, failure, hat, Option.map_some]
      refine h.fail (by simpa using hmem) (fun _ => ?_) (heq.trans (by rw [← howes]))
      simpa [Credited, failure, hat] using hcredited
  | await request => exact ⟨trivial, h.hear _⟩
  | savePeersBatch peers =>
    dsimp only [watch, Op.apply]
    split
    · exact ⟨trivial, h⟩
    · exact ⟨trivial, h.books, h.only⟩
  | addProvider key id pk addrs ttl =>
    dsimp only [watch, Op.apply]
    split
    · exact ⟨trivial, h⟩
    · split
      · exact ⟨trivial, h.books, h.only⟩
      · exact ⟨trivial, h⟩
  | _ => exact ⟨trivial, h.books, h.only⟩

theorem started_sound (ctx : HandlerContext) (now : Nat) (s : NodeState) :
    Sound ctx (started ctx now s).state :=
  ⟨loadPeers_books now s.savedPeers (books_new now ctx.nodeId ctx.config.k), trivial⟩

end

/-- The id of the key `key1`. -/
def peer : NodeId := NodeId.fromBytes (Sha256.digest key1.bytes)

/-- A node that drops a peer at its second failure. -/
def twoFailures : HandlerContext :=
  let ctx := contextWith (.knowing [⟨Bytes32.fill 1, key1, []⟩, ⟨Bytes32.fill 2, key2, []⟩] [])
  { ctx with config := { ctx.config with maxFailures := 2 } }

/-- It knows the peer from its last session. -/
def onePeer : NodeState :=
  { freshState with savedPeers := [⟨Sha256.digest key1.bytes, key1, [.v4 127 0 0 1 4434]⟩] }

/-- The `i`-th task is a provider query, and gets the input all along. -/
def providerQuery (i : Nat) (input : Input) : List (Action Duty Input) :=
  .start (.getProviders (Sha256.digest [7])) :: List.replicate 14 (.run i input)

/-- The peer answers that it knows no provider. -/
def answered : Input :=
  { quietInput with answer := some (messageOf key1 7 (.getProvidersResponse [] []) []) }

/-- The peer does not answer at all. -/
def unansweredTwice : List (Action Duty Input) :=
  providerQuery 0 quietInput ++ providerQuery 1 quietInput

/-- The peer answers in between. -/
def answeredBetween : List (Action Duty Input) :=
  providerQuery 0 quietInput ++ providerQuery 1 answered ++ providerQuery 2 quietInput

end TesserasDht.FailureCounts
