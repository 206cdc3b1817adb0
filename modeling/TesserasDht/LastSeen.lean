import TesserasDht.Lib.Runs
import TesserasDht.Routing

/-!
# Is the first peer of a bucket the one that was seen least recently?

Nodes are appended, and a node that is heard of again keeps its place. The order by `last_seen` holds
as long as only the last node is refreshed, and what is appended is no older than the rest.
-/

open Lib.Lists Lib.Runs TesserasDht.Routing

namespace TesserasDht.LastSeen

/-- The operations on a bucket, with the clock reading of each that makes one. -/
inductive BucketOp
  | insert (now : Nat) (node : NodeInfo)
  | remove (nodeId : NodeId)
  | recordFailure (nodeId : NodeId) (maxFailures : UInt8)
  | evictAndInsert (now : Nat) (failedId : NodeId) (newNode : NodeInfo)
  | markSeen (now : Nat) (nodeId : NodeId)

structure BucketRun where
  bucket : KBucket
  /-- The last clock reading of an operation. -/
  clock : Nat

def start (now k : Nat) : BucketRun := ⟨KBucket.new now k, now⟩

def step (s : BucketRun) : BucketOp → BucketRun
  | .insert now node =>
    match s.bucket.insert now node with
    | .ok (b, _) => ⟨b, now⟩
    | .error _ => ⟨s.bucket, now⟩
  | .remove id => { s with bucket := (s.bucket.remove id).1 }
  | .recordFailure id max => { s with bucket := s.bucket.recordFailure id max }
  | .evictAndInsert now f node => ⟨(s.bucket.evictAndInsert now f node).1, now⟩
  | .markSeen now id => ⟨s.bucket.markSeen now id, now⟩

/-- The clock moves on, and a node was created before it is handed in. -/
def Timed (s : BucketRun) : BucketOp → Prop
  | .insert now node | .evictAndInsert now _ node => s.clock < now ∧ node.lastSeen < now
  | .markSeen now _ => s.clock < now
  | .remove _ | .recordFailure _ _ => True

instance Timed.decidable (s : BucketRun) : ∀ op, Decidable (Timed s op)
  | .insert now node | .evictAndInsert now _ node =>
    inferInstanceAs (Decidable (s.clock < now ∧ node.lastSeen < now))
  | .markSeen now _ => inferInstanceAs (Decidable (s.clock < now))
  | .remove _ | .recordFailure _ _ => inferInstanceAs (Decidable True)

/-! ## Order by `last_seen` -/

def Ordered (l : List NodeInfo) : Prop := l.Pairwise fun m n => m.lastSeen ≤ n.lastSeen

/-- No node was seen later than this one. -/
def Newest (l : List NodeInfo) (node : NodeInfo) : Prop := ∀ n ∈ l, n.lastSeen ≤ node.lastSeen

/-- The node with the id is the last one, if there is one. -/
def NothingBehind (l : List NodeInfo) (id : NodeId) : Prop :=
  (l.dropWhile fun n => n.nodeId ≠ id).length ≤ 1

/-- What is left without the first node of the id. -/
def without (l : List NodeInfo) (id : NodeId) : List NodeInfo := l.eraseP fun n => n.nodeId = id

/-- The peer that a removal of the id promotes is newer than the nodes that stay. -/
def PromotesNewest (b : KBucket) (id : NodeId) : Prop :=
  id ∈ ids b.nodes → ∀ p ∈ b.replacementCache.getLast?, Newest (without b.nodes id) p

/-- The condition on an operation: a refresh is one of the last node, and what is appended is the
newest. -/
def InOrder (s : BucketRun) : BucketOp → Prop
  | .insert _ node =>
    if node.nodeId ∈ ids s.bucket.nodes then NothingBehind s.bucket.nodes node.nodeId
    else s.bucket.isFull = false → Newest s.bucket.nodes node
  | .remove id => PromotesNewest s.bucket id
  | .recordFailure id max =>
    ∀ n ∈ s.bucket.nodes.find? (fun n => n.nodeId = id), max ≤ n.recordFailure.failCount →
      PromotesNewest s.bucket id
  | .evictAndInsert _ f node => f ∈ ids s.bucket.nodes → Newest (without s.bucket.nodes f) node
  | .markSeen _ id => NothingBehind s.bucket.nodes id

instance (l : List NodeInfo) : Decidable (Ordered l) := by unfold Ordered; infer_instance

instance (l : List NodeInfo) (node : NodeInfo) : Decidable (Newest l node) := by
  unfold Newest; infer_instance

instance (l : List NodeInfo) (id : NodeId) : Decidable (NothingBehind l id) := by
  unfold NothingBehind; infer_instance

instance (b : KBucket) (id : NodeId) : Decidable (PromotesNewest b id) := by
  unfold PromotesNewest; infer_instance

instance InOrder.decidable (s : BucketRun) (op : BucketOp) : Decidable (InOrder s op) := by
  cases op <;> (unfold InOrder; infer_instance)

theorem ordered_concat {l : List NodeInfo} {node : NodeInfo} :
    Ordered (l ++ [node]) ↔ Ordered l ∧ Newest l node := by
  rw [Ordered, List.pairwise_append]
  simp [Ordered, Newest]

theorem ordered_append_option {l : List NodeInfo} (h : Ordered l) (p : Option NodeInfo) :
    Ordered (l ++ p.toList) ↔ ∀ n ∈ p, Newest l n := by
  cases p with
  | none => simpa using h
  | some n =>
    rw [Option.toList_some, ordered_concat]
    simp [h]

theorem Ordered.without {l : List NodeInfo} (h : Ordered l) (id : NodeId) : Ordered (without l id) :=
  h.sublist List.eraseP_sublist

/-- After a refresh the list is ordered just when nothing stands behind the refreshed node. -/
theorem ordered_refresh {l : List NodeInfo} (h : Ordered l) {now : Nat} (hnow : ∀ n ∈ l, n.lastSeen < now)
    (id : NodeId) {f : NodeInfo → NodeInfo} (hf : ∀ n, (f n).lastSeen = now) :
    Ordered (modifyFirst (fun n => n.nodeId = id) f l) ↔ NothingBehind l id := by
  unfold NothingBehind
  induction l with
  | nil => simp [modifyFirst, Ordered]
  | cons x xs ih =>
    obtain ⟨hx, hxs⟩ := List.pairwise_cons.mp h
    obtain ⟨hxnow, hxsnow⟩ := List.forall_mem_cons.mp hnow
    by_cases hid : x.nodeId = id
    · have hdrop : (x :: xs).dropWhile (fun n => n.nodeId ≠ id) = x :: xs :=
        List.dropWhile_cons_of_neg (by simpa using hid)
      have hmod : modifyFirst (fun n => n.nodeId = id) f (x :: xs) = f x :: xs := by
        rw [modifyFirst, if_pos (by simpa using hid)]
      rw [hdrop, hmod, Ordered, List.pairwise_cons, hf]
      constructor
      · rintro ⟨hlate, -⟩
        cases xs with
        | nil => exact le_refl 1
        | cons y ys =>
          have hle := hlate y List.mem_cons_self
          have hlt := hxsnow y List.mem_cons_self
          omega
      · intro hlen
        obtain rfl : xs = [] := List.length_eq_zero_iff.mp (by simpa using hlen)
        exact ⟨by simp, List.Pairwise.nil⟩
    · have hdrop : (x :: xs).dropWhile (fun n => n.nodeId ≠ id) = xs.dropWhile (fun n => n.nodeId ≠ id) :=
        List.dropWhile_cons_of_pos (by simpa using hid)
      have hmod : modifyFirst (fun n => n.nodeId = id) f (x :: xs) =
          x :: modifyFirst (fun n => n.nodeId = id) f xs := by
        rw [modifyFirst, if_neg (by simpa using hid)]
      rw [hdrop, hmod, ← ih hxs hxsnow, Ordered, List.pairwise_cons]
      refine and_iff_right ?_
      intro y hy
      rcases mem_modifyFirst hy with hy | ⟨z, -, -, rfl⟩
      · exact hx y hy
      · rw [hf]
        exact le_of_lt hxnow

/-! ## Operations -/

/-- No node, in the bucket or in its cache, is newer than the clock. -/
def Past (s : BucketRun) : Prop :=
  (∀ n ∈ s.bucket.nodes, n.lastSeen ≤ s.clock) ∧ ∀ n ∈ s.bucket.replacementCache, n.lastSeen ≤ s.clock

section

variable {s : BucketRun} {b : KBucket}

theorem remove_nodes (b : KBucket) (id : NodeId) :
    (b.remove id).1.nodes =
      if id ∈ ids b.nodes then without b.nodes id ++ b.replacementCache.getLast?.toList else b.nodes := by
  unfold KBucket.remove
  by_cases hmem : id ∈ ids b.nodes
  · rw [if_pos ((any_iff_mem _ _).mpr hmem), if_pos hmem]
    rfl
  · rw [if_neg (by rwa [any_iff_mem]), if_neg hmem]

theorem remove_ordered_iff (h : Ordered b.nodes) (id : NodeId) :
    Ordered (b.remove id).1.nodes ↔ PromotesNewest b id := by
  rw [remove_nodes]
  unfold PromotesNewest
  split
  next hmem =>
    rw [ordered_append_option (h.without id)]
    exact ⟨fun h _ => h, fun h => h hmem⟩
  next hno => exact iff_of_true h fun hmem => absurd hmem hno

theorem without_modifyFirst (l : List NodeInfo) (id : NodeId) {f : NodeInfo → NodeInfo}
    (hf : ∀ n, (f n).nodeId = n.nodeId) :
    without (modifyFirst (fun n => n.nodeId = id) f l) id = without l id := by
  unfold without
  induction l with
  | nil => rfl
  | cons x xs ih =>
    by_cases hid : x.nodeId = id
    · rw [modifyFirst, if_pos (by simpa using hid), List.eraseP_cons_of_pos (by simpa [hf] using hid),
        List.eraseP_cons_of_pos (by simpa using hid)]
    · rw [modifyFirst, if_neg (by simpa using hid), List.eraseP_cons_of_neg (by simpa using hid),
        List.eraseP_cons_of_neg (by simpa using hid), ih]

theorem ordered_charge {l : List NodeInfo} (h : Ordered l) (id : NodeId) :
    Ordered (modifyFirst (fun n => n.nodeId = id) NodeInfo.recordFailure l) := by
  have hmap := map_modifyFirst (fun n => decide (n.nodeId = id)) NodeInfo.recordFailure
    NodeInfo.lastSeen (fun _ => rfl) l
  have hl : (l.map NodeInfo.lastSeen).Pairwise (· ≤ ·) := List.pairwise_map.mpr h
  rw [← hmap] at hl
  exact List.pairwise_map.mp hl

theorem recordFailure_ordered_iff (h : Ordered b.nodes) (id : NodeId) (max : UInt8) :
    Ordered (b.recordFailure id max).nodes ↔
      ∀ n ∈ b.nodes.find? (fun n => n.nodeId = id), max ≤ n.recordFailure.failCount →
        PromotesNewest b id := by
  unfold KBucket.recordFailure
  cases hfind : b.nodes.find? (fun n => n.nodeId = id) with
  | none => exact iff_of_true h (by rintro n ⟨⟩)
  | some node =>
    have hid : node.nodeId = id := by simpa using List.find?_some hfind
    have hcharged := ordered_charge h id
    simp only [Option.mem_def, Option.some.injEq, forall_eq']
    split
    next hmax =>
      rw [remove_ordered_iff hcharged, forall_prop_of_true hmax, hid]
      have hids : ids (modifyFirst (fun n => n.nodeId = id) NodeInfo.recordFailure b.nodes) = ids b.nodes :=
        map_modifyFirst _ NodeInfo.recordFailure _ (fun _ => rfl) _
      have hrest := without_modifyFirst b.nodes id (f := NodeInfo.recordFailure) fun _ => rfl
      simp only [PromotesNewest, hids, hrest]
    next hmax => exact iff_of_true hcharged fun h => absurd h hmax

theorem insert_ordered_iff {b' : KBucket} {now : Nat} {node : NodeInfo} {r : InsertResult}
    (h : Ordered b.nodes) (hnow : ∀ n ∈ b.nodes, n.lastSeen < now)
    (hins : b.insert now node = .ok (b', r)) :
    Ordered b'.nodes ↔
      if node.nodeId ∈ ids b.nodes then NothingBehind b.nodes node.nodeId
      else b.isFull = false → Newest b.nodes node := by
  unfold KBucket.insert at hins
  split at hins
  next n hfind =>
    cases hins
    have hmem : node.nodeId ∈ ids b.nodes := by
      by_contra hno
      rw [(find_none_iff _ _).mpr hno] at hfind
      cases hfind
    rw [if_pos hmem]
    exact ordered_refresh h hnow node.nodeId fun _ => rfl
  next hfind =>
    rw [if_neg ((find_none_iff _ _).mp hfind)]
    split at hins
    next hroom =>
      cases hins
      rw [ordered_concat, forall_prop_of_true (by simpa using hroom)]
      exact and_iff_right h
    next hfull =>
      split at hins
      next => cases hins
      next =>
        cases hins
        refine iff_of_true h fun hroom => absurd hroom ?_
        simpa using hfull

theorem evictAndInsert_ordered_iff (h : Ordered b.nodes) (now : Nat) (f : NodeId) (node : NodeInfo) :
    Ordered (b.evictAndInsert now f node).1.nodes ↔
      (f ∈ ids b.nodes → Newest (without b.nodes f) node) := by
  unfold KBucket.evictAndInsert
  by_cases hmem : f ∈ ids b.nodes
  · rw [if_pos ((any_iff_mem _ _).mpr hmem), forall_prop_of_true hmem]
    exact ordered_concat.trans (and_iff_right (h.without f))
  · rw [if_neg (by rwa [any_iff_mem])]
    exact iff_of_true h fun hin => absurd hin hmem

/-- One case per operation. -/
theorem step_ordered_iff (s : BucketRun) (op : BucketOp) (hpast : Past s) (htimed : Timed s op)
    (h : Ordered s.bucket.nodes) : Ordered (step s op).bucket.nodes ↔ InOrder s op := by
  have hbefore {now : Nat} (hclock : s.clock < now) : ∀ n ∈ s.bucket.nodes, n.lastSeen < now :=
    fun n hn => lt_of_le_of_lt (hpast.1 n hn) hclock
  cases op with
  | insert now node =>
    cases hins : s.bucket.insert now node with
    | ok res =>
      simp only [step, hins]
      exact insert_ordered_iff h (hbefore htimed.1) hins
    | error e =>
      simp only [step, hins]
      refine iff_of_true h ?_
      -- Only an empty bucket of size 0 panics.
      unfold KBucket.insert at hins
      split at hins
      next => cases hins
      next hfind =>
        split at hins
        next => cases hins
        next hfull =>
          rw [InOrder, if_neg ((find_none_iff _ _).mp hfind)]
          exact fun hroom => absurd hroom (by simpa using hfull)
  | remove id => exact remove_ordered_iff h id
  | recordFailure id max => exact recordFailure_ordered_iff h id max
  | evictAndInsert now f node => exact evictAndInsert_ordered_iff h now f node
  | markSeen now id => exact ordered_refresh h (hbefore htimed) id fun _ => rfl

end

/-! ## Time -/

theorem start_past (now k : Nat) : Past (start now k) :=
  ⟨by rintro _ ⟨⟩, by rintro _ ⟨⟩⟩

/-- An operation that reads the clock at `now` keeps what it finds, refreshes it at `now`, or brings in
a node that was created before. -/
theorem step_past (s : BucketRun) (op : BucketOp) (h : Past s) (htimed : Timed s op) : Past (step s op) := by
  obtain ⟨hnodes, hcache⟩ := h
  have hlater {l : List NodeInfo} {now : Nat} (hl : ∀ n ∈ l, n.lastSeen ≤ s.clock) (hclock : s.clock < now) :
      ∀ n ∈ l, n.lastSeen ≤ now := fun n hn => le_trans (hl n hn) (le_of_lt hclock)
  have hrefresh {now : Nat} (p : NodeInfo → Bool) {f : NodeInfo → NodeInfo} (hf : ∀ n, (f n).lastSeen = now)
      (hclock : s.clock < now) : ∀ n ∈ modifyFirst p f s.bucket.nodes, n.lastSeen ≤ now := by
    intro n hn
    rcases mem_modifyFirst hn with hn | ⟨m, -, -, rfl⟩
    · exact hlater hnodes hclock n hn
    · exact le_of_eq (hf m)
  have hconcat {l : List NodeInfo} {node : NodeInfo} {now : Nat} (hl : ∀ n ∈ l, n.lastSeen ≤ now)
      (hnode : node.lastSeen < now) : ∀ n ∈ l ++ [node], n.lastSeen ≤ now := by
    intro n hn
    rcases List.mem_append.mp hn with hn | hn
    · exact hl n hn
    · rw [List.mem_singleton.mp hn]
      exact le_of_lt hnode
  have hremove (nodes : List NodeInfo) (hl : ∀ n ∈ nodes, n.lastSeen ≤ s.clock) (id : NodeId) :
      Past ⟨({ s.bucket with nodes }.remove id).1, s.clock⟩ := by
    unfold KBucket.remove
    split
    · refine ⟨fun n hn => ?_, fun n hn => hcache n (List.mem_of_mem_dropLast hn)⟩
      rcases List.mem_append.mp hn with hn | hn
      · exact hl n (List.mem_of_mem_eraseP hn)
      · exact hcache n (List.mem_of_getLast? (Option.mem_toList.mp hn))
    · exact ⟨hl, hcache⟩
  cases op with
  | insert now node =>
    obtain ⟨hclock, hnode⟩ := htimed
    cases hins : s.bucket.insert now node with
    | error e =>
      simp only [step, hins]
      exact ⟨hlater hnodes hclock, hlater hcache hclock⟩
    | ok res =>
      simp only [step, hins]
      unfold KBucket.insert at hins
      split at hins
      next =>
        cases hins
        exact ⟨hrefresh _ (fun _ => rfl) hclock, hlater hcache hclock⟩
      next =>
        split at hins
        next =>
          cases hins
          exact ⟨hconcat (hlater hnodes hclock) hnode, hlater hcache hclock⟩
        next =>
          split at hins
          next => cases hins
          next =>
            cases hins
            refine ⟨hlater hnodes hclock, fun n hn => ?_⟩
            refine hconcat (l := s.bucket.replacementCache.filter (fun n => n.nodeId ≠ node.nodeId))
              (fun n hn => hlater hcache hclock n (List.mem_of_mem_filter hn)) hnode n ?_
            exact List.mem_of_mem_drop hn
  | remove id => exact hremove s.bucket.nodes hnodes id
  | recordFailure id max =>
    have hcharged : ∀ n ∈ modifyFirst (fun n => n.nodeId = id) NodeInfo.recordFailure s.bucket.nodes,
        n.lastSeen ≤ s.clock := by
      intro n hn
      rcases mem_modifyFirst hn with hn | ⟨m, hm, -, rfl⟩
      · exact hnodes n hn
      · exact hnodes m hm
    simp only [step]
    unfold KBucket.recordFailure
    split
    · exact ⟨hnodes, hcache⟩
    · dsimp only
      split
      · exact hremove _ hcharged _
      · exact ⟨hcharged, hcache⟩
  | evictAndInsert now f node =>
    obtain ⟨hclock, hnode⟩ := htimed
    simp only [step]
    unfold KBucket.evictAndInsert
    split
    · exact ⟨hconcat (fun n hn => hlater hnodes hclock n (List.mem_of_mem_eraseP hn)) hnode,
        fun n hn => hlater hcache hclock n (List.mem_of_mem_filter hn)⟩
    · exact ⟨hlater hnodes hclock, hlater hcache hclock⟩
  | markSeen now id => exact ⟨hrefresh _ (fun _ => rfl) htimed, hlater hcache htimed⟩

/-! ## Runs -/

theorem insert_reports_first {b b' : KBucket} {now : Nat} {node : NodeInfo} {f : NodeId}
    (h : b.insert now node = .ok (b', .bucketFull f)) : ∃ lrs, b.nodes.head? = some lrs ∧ lrs.nodeId = f := by
  unfold KBucket.insert at h
  split at h
  · cases h
  · split at h
    · cases h
    · split at h
      · cases h
      next lrs rest hnodes =>
        cases h
        exact ⟨lrs, by rw [hnodes]; rfl, rfl⟩

theorem lastSeen_ordered_iff (now k : Nat) (ops : List BucketOp) (htimed : Meets step Timed (start now k) ops) :
    ((∀ n, Ordered (run step (start now k) (ops.take n)).bucket.nodes) ↔
      Meets step InOrder (start now k) ops) ∧
    (Meets step InOrder (start now k) ops → ∀ n later node b' f,
      (run step (start now k) (ops.take n)).bucket.insert later node = .ok (b', .bucketFull f) →
        ∃ lrs ∈ (run step (start now k) (ops.take n)).bucket.nodes, lrs.nodeId = f ∧
          ∀ m ∈ (run step (start now k) (ops.take n)).bucket.nodes, lrs.lastSeen ≤ m.lastSeen) := by
  have hempty : Ordered (start now k).bucket.nodes := List.Pairwise.nil
  have hiff := run_inv_iff (I := fun s => Ordered s.bucket.nodes) (J := Past) step_past
    step_ordered_iff (start_past now k) hempty htimed
  refine ⟨hiff, ?_⟩
  intro hmeets n later node b' f hins
  obtain ⟨lrs, hhead, hid⟩ := insert_reports_first hins
  obtain ⟨rest, hnodes⟩ := List.head?_eq_some_iff.mp hhead
  have hordered := hiff.mpr hmeets n
  rw [hnodes] at hordered ⊢
  refine ⟨lrs, List.mem_cons_self, hid, ?_⟩
  intro m hm
  rcases List.mem_cons.mp hm with rfl | hm
  · exact le_refl _
  · exact (List.pairwise_cons.mp hordered).1 m hm

/-- The peer `b`, created at the time `now`. -/
def seenAt (now : Nat) (b : UInt8) : NodeInfo := { peerOf b with lastSeen := now }

/-- Two peers, the second heard of again, a third that waits and is promoted. -/
def orderlyOps : List BucketOp :=
  [.insert 2 (seenAt 1 1), .insert 4 (seenAt 3 2), .markSeen 5 (idOf 2), .insert 7 (seenAt 6 3),
    .remove (idOf 1)]

theorem lastSeen_ordered_iff_orderly :
    Ordered (run step (start 0 2) (orderlyOps.take 5)).bucket.nodes := by
  have htimed : Meets step Timed (start 0 2) orderlyOps := by decide
  exact (lastSeen_ordered_iff 0 2 orderlyOps htimed).1.mpr (by decide +kernel) 5

/-- The first of two peers is heard of again, and stays the first. The next newcomer finds it
reported, though the other one has not been seen for longer. -/
theorem refreshed_peer_is_reported : ∃ ops n later node b' f,
    Meets step Timed (start 0 2) ops ∧
    (run step (start 0 2) (ops.take n)).bucket.insert later node = .ok (b', .bucketFull f) ∧
    ∃ lrs ∈ (run step (start 0 2) (ops.take n)).bucket.nodes, lrs.nodeId = f ∧
      ∃ m ∈ (run step (start 0 2) (ops.take n)).bucket.nodes, m.lastSeen < lrs.lastSeen := by
  refine ⟨[.insert 2 (seenAt 1 1), .insert 4 (seenAt 3 2), .insert 6 (seenAt 5 1)], 3, 8, seenAt 7 3, _, _,
    by decide, rfl, ?_⟩
  exact ⟨_, List.mem_cons_self, rfl, _, List.mem_cons_of_mem _ List.mem_cons_self, by decide⟩

end TesserasDht.LastSeen
