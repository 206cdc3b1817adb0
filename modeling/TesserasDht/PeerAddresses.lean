import TesserasDht.Peers
import TesserasDht.TableRuns

/-!
# How many addresses an entry has

Only the merge of a known peer cuts its addresses to `MAX_PEER_ADDRS`. An entry that is new takes the
addresses as they come.
-/

open Lib.Lists Lib.Runs TesserasDht.Routing TesserasDht.Peers

namespace TesserasDht.PeerAddresses

/-- At most `MAX_PEER_ADDRS` addresses, without repetition. -/
def Bounded (n : NodeInfo) : Prop := n.addresses.length ≤ maxPeerAddrs ∧ n.addresses.Nodup

/-! ## The merge -/

theorem nodup_foldl_new {new acc : List SocketAddr} (h : acc.Nodup) :
    (new.foldl (fun acc a => if a ∈ acc then acc else acc ++ [a]) acc).Nodup := by
  induction new generalizing acc with
  | nil => exact h
  | cons a rest ih =>
    refine ih ?_
    dsimp only
    split
    · exact h
    next hno =>
      rw [← List.concat_eq_append]
      exact h.concat hno

theorem mergeAddresses_bounded {old : List SocketAddr} (h : old.Nodup) (new : List SocketAddr) :
    (mergeAddresses old new).length ≤ maxPeerAddrs ∧ (mergeAddresses old new).Nodup := by
  refine ⟨List.length_take_le _ _, ?_⟩
  have hsort := (List.perm_insertionSort (fun a b => (!isLanAddr a) ≤ (!isLanAddr b))
    (new.foldl (fun acc a => if a ∈ acc then acc else acc ++ [a]) old)).nodup_iff
  exact (hsort.mpr (nodup_foldl_new h)).sublist (List.take_sublist _ _)

/-! ## Sizes of a bucket -/

/-- The bucket and its cache have the size `k`, and the bucket keeps to it. -/
structure Fit (k : Nat) (b : KBucket) : Prop where
  k_eq : b.k = k
  cacheSize : b.maxCacheSize = k
  len : b.nodes.length ≤ k

section

variable {k : Nat} {b b' : KBucket}

theorem Fit.insert (h : Fit k b) {now : Nat} {node : NodeInfo} {r : InsertResult}
    (hins : b.insert now node = .ok (b', r)) : Fit k b' := by
  unfold KBucket.insert at hins
  split at hins
  · cases hins
    exact ⟨h.k_eq, h.cacheSize, by rw [length_modifyFirst]; exact h.len⟩
  · split at hins
    next hroom =>
      cases hins
      refine ⟨h.k_eq, h.cacheSize, ?_⟩
      simp only [KBucket.isFull, h.k_eq, Bool.not_eq_true', decide_eq_false_iff_not] at hroom
      rw [List.length_append, List.length_singleton]
      omega
    next =>
      split at hins
      · cases hins
      · cases hins
        exact ⟨h.k_eq, h.cacheSize, h.len⟩

theorem length_eraseP_id {l : List NodeInfo} {id : NodeId} (h : (l.any fun n => n.nodeId = id) = true) :
    (l.eraseP fun n => n.nodeId = id).length + 1 = l.length := by
  obtain ⟨n, hn, hid⟩ := List.any_eq_true.mp h
  rw [List.length_eraseP_of_mem hn hid]
  have := List.length_pos_of_mem hn
  omega

theorem Fit.evictAndInsert (h : Fit k b) (now : Nat) (failedId : NodeId) (node : NodeInfo) :
    Fit k (b.evictAndInsert now failedId node).1 := by
  unfold KBucket.evictAndInsert
  split
  next hany =>
    refine ⟨h.k_eq, h.cacheSize, ?_⟩
    have := length_eraseP_id hany
    have := h.len
    rw [List.length_append, List.length_singleton]
    omega
  next => exact h

theorem Fit.remove (h : Fit k b) (nodeId : NodeId) : Fit k (b.remove nodeId).1 := by
  unfold KBucket.remove
  split
  next hany =>
    refine ⟨h.k_eq, h.cacheSize, ?_⟩
    have := length_eraseP_id hany
    have := h.len
    have : b.replacementCache.getLast?.toList.length ≤ 1 := by
      cases b.replacementCache.getLast? <;> simp
    rw [List.length_append]
    omega
  next => exact h

theorem Fit.modifyFirst (h : Fit k b) (p : NodeInfo → Bool) (f : NodeInfo → NodeInfo) :
    Fit k { b with nodes := modifyFirst p f b.nodes } :=
  ⟨h.k_eq, h.cacheSize, by rw [length_modifyFirst]; exact h.len⟩

theorem Fit.recordFailure (h : Fit k b) (nodeId : NodeId) (maxFailures : UInt8) :
    Fit k (b.recordFailure nodeId maxFailures) := by
  unfold KBucket.recordFailure
  split
  · exact h
  · dsimp only
    split
    · exact (h.modifyFirst _ _).remove _
    · exact h.modifyFirst _ _

/-! ## One bucket -/

theorem insert_bounded_iff (hfit : Fit k b) (h : BucketGood Bounded b) {now : Nat} {node : NodeInfo}
    {r : InsertResult} (hins : b.insert now node = .ok (b', r)) :
    BucketGood Bounded b' ↔ (node.nodeId ∉ ids b.nodes → Bounded node) := by
  unfold KBucket.insert at hins
  split at hins
  next n hfind =>
    cases hins
    have hmem : node.nodeId ∈ ids b.nodes := by
      by_contra hno
      rw [(find_none_iff _ _).mpr hno] at hfind
      cases hfind
    refine iff_of_true ⟨modifyFirst_good (fun n hn _ => ?_) h.1, h.2⟩ fun hno => absurd hmem hno
    exact mergeAddresses_bounded hn.2 node.addresses
  next hfind =>
    have hno := (find_none_iff _ _).mp hfind
    split at hins
    next =>
      cases hins
      refine ⟨fun h' _ => ?_, fun hnode => ⟨concat_good h.1 (hnode hno), h.2⟩⟩
      exact h'.1 node (List.mem_append_right _ (List.mem_singleton_self node))
    next =>
      split at hins
      next => cases hins
      next lrs rest hnodes =>
        cases hins
        have hcache : ∀ n ∈ b.replacementCache.filter (fun n => n.nodeId ≠ node.nodeId), Bounded n :=
          fun n hn => h.2 n (List.mem_of_mem_filter hn)
        constructor
        · intro h' _
          -- A bucket that has a node has room for one in its cache.
          have hpos : 0 < b.maxCacheSize := by
            have hlen := hfit.len
            rw [hnodes, List.length_cons] at hlen
            have hsize := hfit.cacheSize
            omega
          refine h'.2 node (List.mem_iff_getElem?.mpr
            ⟨(b.addToCache node).replacementCache.length - 1, ?_⟩)
          simp only [KBucket.addToCache, List.length_drop, List.length_append, List.length_singleton,
            List.getElem?_drop]
          rw [List.getElem?_append_right (by omega), List.getElem?_singleton, if_pos (by omega)]
        · intro hnode
          exact ⟨h.1, fun n hn => concat_good hcache (hnode hno) n (List.mem_of_mem_drop hn)⟩

theorem evictAndInsert_bounded_iff (h : BucketGood Bounded b) (now : Nat) (failedId : NodeId)
    (node : NodeInfo) :
    BucketGood Bounded (b.evictAndInsert now failedId node).1 ↔
      (failedId ∈ ids b.nodes → Bounded node) := by
  by_cases hmem : failedId ∈ ids b.nodes
  · constructor
    · intro h' _
      refine h'.1 node ?_
      rw [KBucket.evictAndInsert, if_pos ((any_iff_mem _ _).mpr hmem)]
      exact List.mem_append_right _ (List.mem_singleton_self node)
    · intro hnode
      exact evictAndInsert_bucketGood now failedId h (hnode hmem)
  · rw [KBucket.evictAndInsert, if_neg (by rwa [any_iff_mem])]
    exact iff_of_true h fun hin => absurd hin hmem

end

/-! ## Runs -/

/-- A list of addresses that is stored as it is has to be bounded: of a newcomer that finds a place
or waits in the cache, and of one that takes the place of another. -/
def Tame (s : TableRun) : TableOp → Prop
  | .insert _ node =>
    let b := s.table.bucket (s.table.bucketIndex node.nodeId)
    node.nodeId ≠ s.table.localId ∧ node.nodeId ∉ ids b.nodes ∧ ¬(b.isFull = true ∧ b.nodes = []) →
      Bounded node
  | .evictAndInsert _ f node =>
    f ∈ ids (s.table.bucket (s.table.bucketIndex f)).nodes → Bounded node
  | _ => True

section

variable {k : Nat} {s : TableRun}

theorem setBucket_tableGood_iff {Good : NodeInfo → Prop} {t : RoutingTable} {i : Fin 256} {b : KBucket}
    (h : TableGood Good t) : TableGood Good (t.setBucket i b) ↔ BucketGood Good b := by
  refine ⟨fun h' => ?_, setBucket_tableGood h⟩
  have := h' i
  rwa [bucket_setBucket, if_pos rfl] at this

theorem setBucket_fit {t : RoutingTable} {i : Fin 256} {b : KBucket} (h : ∀ j, Fit k (t.bucket j))
    (hb : Fit k b) (j : Fin 256) : Fit k ((t.setBucket i b).bucket j) := by
  rw [bucket_setBucket]
  split
  · exact hb
  · exact h j

/-- What an `insert` does to the table of a run: nothing, or an insert into one bucket. -/
theorem step_insert (s : TableRun) (now : Nat) (node : NodeInfo) :
    (s.step (.insert now node)).table = s.table ∧
        (node.nodeId = s.table.localId ∨
          (s.table.bucket (s.table.bucketIndex node.nodeId)).isFull = true ∧
            (s.table.bucket (s.table.bucketIndex node.nodeId)).nodes = []) ∨
      node.nodeId ≠ s.table.localId ∧ ∃ b r,
        (s.table.bucket (s.table.bucketIndex node.nodeId)).insert now node = .ok (b, r) ∧
        (s.step (.insert now node)).table = s.table.setBucket (s.table.bucketIndex node.nodeId) b := by
  by_cases hne : node.nodeId = s.table.localId
  · refine Or.inl ⟨?_, Or.inl hne⟩
    simp only [TableRun.step, RoutingTable.insert, if_pos hne]
  · cases hins : (s.table.bucket (s.table.bucketIndex node.nodeId)).insert now node with
    | error e =>
      refine Or.inl ⟨?_, Or.inr ?_⟩
      · simp only [TableRun.step, RoutingTable.insert, if_neg hne, hins]
        rfl
      · unfold KBucket.insert at hins
        split at hins
        · cases hins
        · split at hins
          · cases hins
          next hfull =>
            split at hins
            next hnodes => exact ⟨by simpa using hfull, hnodes⟩
            next => cases hins
    | ok res =>
      obtain ⟨b, r⟩ := res
      refine Or.inr ⟨hne, b, r, rfl, ?_⟩
      simp only [TableRun.step, RoutingTable.insert, if_neg hne, hins]
      cases r <;> rfl

theorem step_fit (s : TableRun) (op : TableOp) (h : ∀ i, Fit k (s.table.bucket i)) :
    ∀ i, Fit k ((s.step op).table.bucket i) := by
  cases op with
  | insert now node =>
    rcases step_insert s now node with ⟨hsame, -⟩ | ⟨-, b, r, hins, hset⟩
    · rw [hsame]
      exact h
    · rw [hset]
      exact setBucket_fit h ((h _).insert hins)
  | evictAndInsert now f node => exact setBucket_fit h ((h _).evictAndInsert now f node)
  | remove id => exact setBucket_fit h ((h _).remove id)
  | recordFailure id max => exact setBucket_fit h ((h _).recordFailure id max)
  | recordFailureByAddr addr max =>
    intro i
    rcases bucket_recordFailureByAddr s.table addr max i with hi | ⟨id, hi⟩
    · exact hi ▸ h i
    · exact hi ▸ (h i).recordFailure id max
  | markSeen now id => exact setBucket_fit h ((h _).modifyFirst _ _)

/-- One case per operation. -/
theorem step_bounded_iff (s : TableRun) (op : TableOp) (hfit : ∀ i, Fit k (s.table.bucket i))
    (h : TableGood Bounded s.table) : TableGood Bounded (s.step op).table ↔ Tame s op := by
  have hcharge (n : NodeInfo) (hn : Bounded n) : Bounded n.recordFailure := hn
  cases op with
  | insert now node =>
    rcases step_insert s now node with ⟨hsame, hwhy⟩ | ⟨hne, b, r, hins, hset⟩
    · rw [hsame]
      refine iff_of_true h ?_
      rintro ⟨hne, -, hroom⟩
      exact absurd hwhy (not_or.mpr ⟨hne, hroom⟩)
    · rw [hset, setBucket_tableGood_iff h, insert_bounded_iff (hfit _) (h _) hins]
      constructor
      · rintro hnode ⟨-, hno, -⟩
        exact hnode hno
      · intro hnode hno
        refine hnode ⟨hne, hno, ?_⟩
        rintro ⟨hfull, hnodes⟩
        simp [KBucket.insert, hnodes, hfull] at hins
  | evictAndInsert now f node =>
    exact (setBucket_tableGood_iff h).trans (evictAndInsert_bounded_iff (h _) now f node)
  | remove id => exact iff_of_true (setBucket_tableGood h (remove_bucketGood id (h _))) trivial
  | recordFailure id max =>
    exact iff_of_true (setBucket_tableGood h (recordFailure_bucketGood hcharge id max (h _))) trivial
  | recordFailureByAddr addr max =>
    exact iff_of_true (recordFailureByAddr_tableGood hcharge addr max h) trivial
  | markSeen now id =>
    refine iff_of_true (setBucket_tableGood h ⟨modifyFirst_good (fun n hn _ => ?_) (h _).1, (h _).2⟩) trivial
    exact hn

end

theorem addresses_bounded_iff (now : Nat) (localId : NodeId) (k : Nat) (ops : List TableOp) :
    (∀ n, TableGood Bounded (run TableRun.step (TableRun.start now localId k) (ops.take n)).table) ↔
      Meets TableRun.step Tame (TableRun.start now localId k) ops := by
  have hfit (i : Fin 256) : Fit k ((TableRun.start now localId k).table.bucket i) := by
    rw [TableRun.start, bucket_new]
    exact ⟨rfl, rfl, Nat.zero_le k⟩
  have hall : Meets TableRun.step (fun _ _ => True) (TableRun.start now localId k) ops :=
    meets_of_forall (fun _ _ => trivial) _ ops
  exact run_inv_iff (I := fun s => TableGood Bounded s.table)
    (J := fun s => ∀ i, Fit k (s.table.bucket i)) (fun s op h _ => step_fit s op h)
    (fun s op hj _ hi => step_bounded_iff s op hj hi) hfit (new_tableGood now localId k)
    hall

/-- A peer with nine addresses, as a `FindNodeResponse` may list it. -/
def manyAddresses : NodeInfo :=
  NodeInfo.new 0 (idOf 0x80) (Bytes32.fill 0x80) ((List.range 9).map fun i => .v4 127 0 0 1 (UInt16.ofNat i))

theorem new_entry_not_bounded : ∃ ops,
    ¬ TableGood Bounded (run TableRun.step (TableRun.start 0 (idOf 0) 20) ops).table := by
  refine ⟨[.insert 1 manyAddresses], fun h => ?_⟩
  have hbounded := (h 0).1 manyAddresses (by decide +kernel)
  exact absurd hbounded.1 (by decide)

end TesserasDht.PeerAddresses
