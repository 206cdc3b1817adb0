import TesserasDht.Routing

/-!
# Runs of routing-table operations

Every task takes the table's lock for one operation at a time, so a run is a list of operations.
A handler that found the bucket full pings the reported peer with the lock released, and may evict
it any number of operations later.
-/

open Lib Lib.Runs

namespace TesserasDht.Routing

inductive TableOp
  | insert (now : Nat) (node : NodeInfo)
  | evictAndInsert (now : Nat) (failedId : NodeId) (node : NodeInfo)
  | remove (nodeId : NodeId)
  | recordFailure (nodeId : NodeId) (maxFailures : UInt8)
  | recordFailureByAddr (addr : SocketAddr) (maxFailures : UInt8)
  | markSeen (now : Nat) (nodeId : NodeId)

/-- The table, and each `lrs_node_id` that `insert` returned with the node it was called for. -/
structure TableRun where
  table : RoutingTable
  reported : List (NodeId × NodeInfo)

def TableRun.start (now : Nat) (localId : NodeId) (k : Nat) : TableRun :=
  ⟨RoutingTable.new now localId k, []⟩

def TableRun.step (s : TableRun) : TableOp → TableRun
  | .insert now node =>
    match s.table.insert now node with
    | .ok (t, .bucketFull f) => ⟨t, (f, node) :: s.reported⟩
    | .ok (t, _) => { s with table := t }
    | .error _ => s
  | .evictAndInsert now f node => { s with table := (s.table.evictAndInsert now f node).1 }
  | .remove id => { s with table := (s.table.remove id).1 }
  | .recordFailure id max => { s with table := s.table.recordFailure id max }
  | .recordFailureByAddr addr max => { s with table := s.table.recordFailureByAddr addr max }
  | .markSeen now id => { s with table := s.table.markSeen now id }

/-- An eviction uses a pair that an earlier `insert` reported. -/
def Allowed (s : TableRun) : TableOp → Prop
  | .evictAndInsert _ f node => (f, node) ∈ s.reported
  | _ => True

structure Inv (localId : NodeId) (k : Nat) (s : TableRun) : Prop where
  local_eq : s.table.localId = localId
  buckets : ∀ i, BucketInv localId k i (s.table.bucket i)
  reported : ∀ p ∈ s.reported, p.2.nodeId ≠ localId ∧
    localId.commonPrefixLength p.1 = localId.commonPrefixLength p.2.nodeId

/-! ## What one operation does to one bucket -/

/-- The id an operation may insert into bucket `j`. -/
def Inserts (t : RoutingTable) (j : Fin 256) (op : TableOp) (id : NodeId) : Prop :=
  ∃ now node, op = .insert now node ∧ node.nodeId = id ∧ id ≠ t.localId ∧ t.bucketIndex id = j

/-- The id an operation may put in the place of `f` in bucket `j`. -/
def Evicts (t : RoutingTable) (j : Fin 256) (op : TableOp) (f id : NodeId) : Prop :=
  ∃ now node, op = .evictAndInsert now f node ∧ node.nodeId = id ∧ t.bucketIndex f = j

section

variable {localId : NodeId} {k : Nat} {s : TableRun}

theorem change_setBucket (t : RoutingTable) (i j : Fin 256) (b : KBucket) {P : NodeId → Prop}
    {E : NodeId → NodeId → Prop} (hs : sizes b = sizes (t.bucket i))
    (hc : i = j → (slots (t.bucket i)).Change k P E (slots b)) :
    sizes ((t.setBucket i b).bucket j) = sizes (t.bucket j) ∧
      (slots (t.bucket j)).Change k P E (slots ((t.setBucket i b).bucket j)) := by
  rw [bucket_setBucket]
  split
  next h => subst h; exact ⟨hs, hc rfl⟩
  next => exact ⟨rfl, .same⟩

theorem change_recordFailure (b : KBucket) (id : NodeId) (max : UInt8) {P : NodeId → Prop}
    {E : NodeId → NodeId → Prop} : (slots b).Change k P E (slots (b.recordFailure id max)) := by
  obtain ⟨-, h | h⟩ := recordFailure_spec b id max
  · rw [h]; exact .same
  · rw [h]; exact .remove id

theorem step_insert_spec (h : Inv localId k s) (hk : 1 ≤ k) (now : Nat) (node : NodeInfo) :
    s.step (.insert now node) = s ∨
      node.nodeId ≠ localId ∧ ∃ b reported,
        s.step (.insert now node) = ⟨s.table.setBucket (s.table.bucketIndex node.nodeId) b, reported⟩ ∧
        sizes b = sizes (s.table.bucket (s.table.bucketIndex node.nodeId)) ∧
        slots b = (slots (s.table.bucket (s.table.bucketIndex node.nodeId))).insert k node.nodeId ∧
        ∀ p ∈ reported, p ∈ s.reported ∨
          p.2 = node ∧ localId.commonPrefixLength p.1 = localId.commonPrefixLength node.nodeId := by
  by_cases hne : node.nodeId = localId
  · left
    have he : s.table.insert now node = .ok (s.table, .updated) := by
      rw [RoutingTable.insert, if_pos (by rw [h.local_eq]; exact hne)]
    simp only [TableRun.step, he]
  · right
    refine ⟨hne, ?_⟩
    have hb := h.buckets (s.table.bucketIndex node.nodeId)
    obtain ⟨hbk, hbm⟩ := Prod.mk.inj hb.sizes_eq
    obtain ⟨b, r, hins, hs, hslots, hf⟩ :=
      insert_spec (s.table.bucket (s.table.bucketIndex node.nodeId)) now node (by omega) (by omega)
    have he : s.table.insert now node =
        .ok (s.table.setBucket (s.table.bucketIndex node.nodeId) b, r) := by
      rw [RoutingTable.insert, if_neg (by rw [h.local_eq]; exact hne)]
      simp only [hins]
      rfl
    rw [hbk] at hslots
    cases r with
    | inserted | updated =>
      exact ⟨b, s.reported, by simp only [TableRun.step, he], hs, hslots, fun p hp => Or.inl hp⟩
    | bucketFull f =>
      refine ⟨b, (f, node) :: s.reported, by simp only [TableRun.step, he], hs, hslots, ?_⟩
      intro p hp
      rcases List.mem_cons.mp hp with rfl | hp
      · have hplace := (hb.placed f (Or.inl (hf f rfl))).2
        refine Or.inr ⟨rfl, ?_⟩
        rw [hplace, bucketIndex_val _ _ (by rw [h.local_eq]; exact hne), h.local_eq]
      · exact Or.inl hp

theorem step_change (h : Inv localId k s) (hk : 1 ≤ k) (op : TableOp) (j : Fin 256) :
    sizes ((s.step op).table.bucket j) = sizes (s.table.bucket j) ∧
      (slots (s.table.bucket j)).Change k (Inserts s.table j op) (Evicts s.table j op)
        (slots ((s.step op).table.bucket j)) := by
  cases op with
  | insert now node =>
    rcases step_insert_spec h hk now node with he | ⟨hne, b, reported, he, hs, hslots, -⟩
    · rw [he]; exact ⟨rfl, .same⟩
    · rw [he]
      refine change_setBucket s.table _ j b hs (fun hj => ?_)
      rw [hslots]
      exact .insert ⟨now, node, rfl, rfl, by rw [h.local_eq]; exact hne, hj⟩
  | evictAndInsert now f node =>
    obtain ⟨hs, hslots⟩ := evictAndInsert_spec (s.table.bucket (s.table.bucketIndex f)) now f node
    exact change_setBucket s.table _ j _ hs (fun hj => hslots ▸ .evict ⟨now, node, rfl, rfl, hj⟩)
  | remove id =>
    obtain ⟨hs, hslots⟩ := remove_spec (s.table.bucket (s.table.bucketIndex id)) id
    exact change_setBucket s.table _ j _ hs (fun _ => hslots ▸ .remove id)
  | recordFailure id max =>
    exact change_setBucket s.table _ j _ (recordFailure_spec _ id max).1
      (fun _ => change_recordFailure _ id max)
  | recordFailureByAddr addr max =>
    rcases bucket_recordFailureByAddr s.table addr max j with he | ⟨id, he⟩
    · rw [show (s.step (.recordFailureByAddr addr max)).table.bucket j = s.table.bucket j from he]
      exact ⟨rfl, .same⟩
    · rw [show (s.step (.recordFailureByAddr addr max)).table.bucket j = _ from he]
      exact ⟨(recordFailure_spec _ id max).1, change_recordFailure _ id max⟩
  | markSeen now id =>
    obtain ⟨hs, hslots⟩ := markSeen_spec (s.table.bucket (s.table.bucketIndex id)) now id
    exact change_setBucket s.table _ j _ hs (fun _ => hslots ▸ .same)

/-! ## The invariant of every run -/

theorem inv_start (now : Nat) (localId : NodeId) (k : Nat) :
    Inv localId k (TableRun.start now localId k) :=
  ⟨rfl, fun i => by rw [TableRun.start, bucket_new]; exact bucketInv_new now, by simp [TableRun.start]⟩

theorem step_local (h : Inv localId k s) (hk : 1 ≤ k) (op : TableOp) :
    (s.step op).table.localId = localId := by
  cases op with
  | insert now node =>
    rcases step_insert_spec h hk now node with he | ⟨-, b, reported, he, -⟩
    · rw [he, h.local_eq]
    · rw [he]; exact h.local_eq
  | _ => exact h.local_eq

theorem step_reported (h : Inv localId k s) (hk : 1 ≤ k) (op : TableOp) :
    ∀ p ∈ (s.step op).reported, p.2.nodeId ≠ localId ∧
      localId.commonPrefixLength p.1 = localId.commonPrefixLength p.2.nodeId := by
  cases op with
  | insert now node =>
    rcases step_insert_spec h hk now node with he | ⟨hne, b, reported, he, -, -, hrep⟩
    · rw [he]; exact h.reported
    · rw [he]
      intro p hp
      rcases hrep p hp with hp | ⟨rfl, hcpl⟩
      · exact h.reported p hp
      · exact ⟨hne, hcpl⟩
  | _ => exact h.reported

theorem step_inv (hk : 1 ≤ k) (s : TableRun) (op : TableOp) (h : Inv localId k s)
    (hok : Allowed s op) : Inv localId k (s.step op) := by
  refine ⟨step_local h hk op, fun j => ?_, step_reported h hk op⟩
  obtain ⟨hs, hc⟩ := step_change h hk op j
  refine (h.buckets j).change hs hc ?_ ?_
  · rintro id ⟨now, node, -, -, hne, hj⟩
    rw [h.local_eq] at hne
    refine ⟨hne, ?_⟩
    rw [← hj, bucketIndex_val _ _ (by rw [h.local_eq]; exact hne), h.local_eq]
  · -- The failed peer is in bucket `j`, and the newcomer was reported with it.
    rintro f id hf ⟨now, node, rfl, rfl, -⟩
    obtain ⟨hne, hcpl⟩ := h.reported (f, node) hok
    exact ⟨hne, by rw [← hcpl]; exact ((h.buckets j).placed f (Or.inl hf)).2⟩

end

/-- The representation invariant of bucket `i`. -/
structure Represents (localId : NodeId) (k : Nat) (i : Fin 256) (b : KBucket) : Prop where
  placed : ∀ n ∈ b.nodes ++ b.replacementCache,
    n.nodeId ≠ localId ∧ localId.commonPrefixLength n.nodeId = i
  nodes_le : b.nodes.length ≤ k
  cache_le : b.replacementCache.length ≤ k
  cache_full : b.replacementCache ≠ [] → b.nodes.length = k
  cache_nodup : (ids b.replacementCache).Nodup
  apart : ∀ id ∈ ids b.replacementCache, id ∉ ids b.nodes

theorem BucketInv.represents {localId : NodeId} {k : Nat} {i : Fin 256} {b : KBucket}
    (h : BucketInv localId k i b) : Represents localId k i b where
  placed n hn := by
    apply h.placed
    rcases List.mem_append.mp hn with hn | hn
    · exact Or.inl (List.mem_map_of_mem hn)
    · exact Or.inr (List.mem_map_of_mem hn)
  nodes_le := by simpa [slots, ids] using h.wf.nodes_le
  cache_le := by simpa [slots, ids] using h.wf.cache_le
  cache_full := by simpa [slots, ids] using h.wf.cache_full
  cache_nodup := h.wf.cache_nodup
  apart := h.wf.apart

theorem run_represents (now : Nat) (localId : NodeId) (k : Nat) (hk : 1 ≤ k) (ops : List TableOp)
    (hok : Meets TableRun.step Allowed (TableRun.start now localId k) ops) (i : Fin 256) :
    Represents localId k i ((run TableRun.step (TableRun.start now localId k) ops).table.bucket i) :=
  ((run_inv (step_inv hk) (inv_start now localId k) hok).buckets i).represents

instance Allowed.decidable (s : TableRun) : ∀ op, Decidable (Allowed s op)
  | .evictAndInsert _ f node => inferInstanceAs (Decidable ((f, node) ∈ s.reported))
  | .insert _ _ | .remove _ | .recordFailure _ _ | .recordFailureByAddr _ _ | .markSeen _ _ =>
    inferInstanceAs (Decidable True)

/-- A full bucket, a reported peer, its eviction. -/
def evictionOps : List TableOp :=
  [.insert 1 (peerOf 0x80), .insert 2 (peerOf 0x81), .evictAndInsert 3 (idOf 0x80) (peerOf 0x81)]

theorem run_represents_eviction :
    Meets TableRun.step Allowed (TableRun.start 0 (idOf 0) 1) evictionOps ∧
      Represents (idOf 0) 1 0
        ((run TableRun.step (TableRun.start 0 (idOf 0) 1) evictionOps).table.bucket 0) :=
  have hok : Meets TableRun.step Allowed (TableRun.start 0 (idOf 0) 1) evictionOps := by decide
  ⟨hok, run_represents 0 (idOf 0) 1 (by decide) evictionOps hok 0⟩

/-! ## Duplicates

`evict_and_insert` does not look for the newcomer. In the time of the ping a removal may have
promoted it from the cache.
-/

/-- An eviction of a stored peer brings in a peer that is not stored. -/
def Separate (s : TableRun) : TableOp → Prop
  | .evictAndInsert _ f node => (f, node) ∈ s.reported ∧
      (f ∈ ids (s.table.bucket (s.table.bucketIndex f)).nodes →
        node.nodeId ∉ ids (s.table.bucket (s.table.bucketIndex f)).nodes)
  | _ => True

theorem Separate.allowed {s : TableRun} {op : TableOp} (h : Separate s op) : Allowed s op := by
  cases op with
  | evictAndInsert now f node => exact h.1
  | _ => trivial

def Distinct (s : TableRun) : Prop := ∀ i, (ids (s.table.bucket i).nodes).Nodup

theorem step_distinct {localId : NodeId} {k : Nat} (hk : 1 ≤ k) (s : TableRun) (op : TableOp)
    (h : Inv localId k s ∧ Distinct s) (hok : Separate s op) :
    Inv localId k (s.step op) ∧ Distinct (s.step op) := by
  refine ⟨step_inv hk s op h.1 hok.allowed, fun j => ?_⟩
  obtain ⟨-, hc⟩ := step_change h.1 hk op j
  refine hc.nodup (h.1.buckets j).wf (h.2 j) ?_
  rintro f id ⟨now, node, rfl, rfl, hj⟩ hf
  have := hok.2
  rw [hj] at this
  exact this hf

theorem run_distinct (now : Nat) (localId : NodeId) (k : Nat) (hk : 1 ≤ k) (ops : List TableOp)
    (hok : Meets TableRun.step Separate (TableRun.start now localId k) ops) (i : Fin 256) :
    (ids ((run TableRun.step (TableRun.start now localId k) ops).table.bucket i).nodes).Nodup := by
  have hstart : Distinct (TableRun.start now localId k) := by
    intro i
    rw [TableRun.start, bucket_new]
    simp [KBucket.new, ids]
  exact (run_inv (step_distinct hk) ⟨inv_start now localId k, hstart⟩ hok).2 i

instance Separate.decidable (s : TableRun) : ∀ op, Decidable (Separate s op)
  | .evictAndInsert _ f node => inferInstanceAs (Decidable ((f, node) ∈ s.reported ∧
      (f ∈ ids (s.table.bucket (s.table.bucketIndex f)).nodes →
        node.nodeId ∉ ids (s.table.bucket (s.table.bucketIndex f)).nodes)))
  | .insert _ _ | .remove _ | .recordFailure _ _ | .recordFailureByAddr _ _ | .markSeen _ _ =>
    inferInstanceAs (Decidable True)

theorem run_distinct_eviction :
    Meets TableRun.step Separate (TableRun.start 0 (idOf 0) 1) evictionOps ∧
      (ids ((run TableRun.step (TableRun.start 0 (idOf 0) 1) evictionOps).table.bucket 0).nodes).Nodup :=
  have hok : Meets TableRun.step Separate (TableRun.start 0 (idOf 0) 1) evictionOps := by decide
  ⟨hok, run_distinct 0 (idOf 0) 1 (by decide) evictionOps hok 0⟩

/-- `k = 2` and peers `80`, `81`. The handler of `82` finds the bucket full and pings `80`. Peer
`81` fails in between, and `82` is promoted. Then `82` also takes the place of `80`. -/
def promotionOps : List TableOp :=
  [.insert 1 (peerOf 0x80), .insert 2 (peerOf 0x81), .insert 3 (peerOf 0x82),
    .recordFailure (idOf 0x81) 1, .evictAndInsert 4 (idOf 0x80) (peerOf 0x82)]

theorem promoted_newcomer_is_stored_twice :
    Meets TableRun.step Allowed (TableRun.start 0 (idOf 0) 2) promotionOps ∧
      ¬ (ids ((run TableRun.step (TableRun.start 0 (idOf 0) 2) promotionOps).table.bucket 0).nodes).Nodup := by
  decide

end TesserasDht.Routing
