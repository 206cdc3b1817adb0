import TesserasDht.ClosestNodes
import TesserasDht.Code.Inbound

/-!
# Finding one stored peer

`closest_nodes` may stop before it has seen every bucket, but it starts with the bucket of the target. So a
stored peer is found by its id, and the handlers use it for that.
-/

open Lib.Runs Lib.Nearest Lib.Tasks TesserasDht.Routing

namespace TesserasDht.ClosestNodes

open Lookup

section

variable {t : RoutingTable} {target : NodeId} {count : Nat} {n : NodeInfo}

theorem buckets_eq (t : RoutingTable) : t.buckets = (List.finRange 256).map t.bucket := by
  refine List.ext_getElem (by rw [t.len, List.length_map, List.length_finRange]) fun i hi hi' => ?_
  rw [List.getElem_map, List.getElem_finRange]
  rfl

theorem length_allNodes (t : RoutingTable) : (allNodes t).length = t.size := by
  rw [allNodes, RoutingTable.size, buckets_eq, List.length_flatMap, List.map_map]
  rfl

theorem rank_self (l : List NodeInfo) (n : NodeInfo) : rank (dist n.nodeId) l n = 0 := by
  rw [rank, List.countP_eq_zero]
  intro m _
  rw [dist_self]
  simp

/-- The peers that a lookup looks at. -/
theorem exists_candidates (h : Placed t) (target : NodeId) (count : Nat) : ∃ c : List NodeInfo,
    t.closestNodes target count = nearest (RoutingTable.closer target) count c ∧
    (ids c).Nodup ∧ c ⊆ allNodes t ∧ (count ≤ c.length ∨ c.length = (allNodes t).length) ∧
    (1 ≤ count → ∀ n ∈ t.nodesAt (t.bucketIndex target).val, n ∈ c) := by
  obtain ⟨R, hclosest, -, hend⟩ := exists_rounds t target count
  have hsub := collected_subset (t := t) (c := (t.bucketIndex target).val) R
  have hnd := nodup_ids_collected (c := (t.bucketIndex target).val) h.nodup_ids R
  have hall (hrest : ∀ s, R ≤ s → ring t (t.bucketIndex target).val s = []) :
      allNodes t ⊆ collected t (t.bucketIndex target).val R := by
    intro u hu
    obtain ⟨i, hi⟩ := mem_allNodes.mp hu
    have hat : u ∈ t.nodesAt i.val := mem_nodesAt.mpr ⟨i.isLt, hi⟩
    obtain ⟨s, hs⟩ : ∃ s, u ∈ ring t (t.bucketIndex target).val s := by
      rcases Nat.lt_or_ge (t.bucketIndex target).val i.val with hlt | hge
      · exact ⟨_, mem_ring_of_upper hlt hat⟩
      · exact ⟨_, mem_ring_of_lower hge hat⟩
    refine List.mem_flatMap.mpr ⟨s, List.mem_range.mpr ?_, hs⟩
    by_contra hlate
    rw [hrest s (by omega)] at hs
    cases hs
  refine ⟨_, hclosest, hnd, hsub, ?_, fun hcount u hu => ?_⟩
  · refine hend.imp_right fun hrest => ?_
    have hmem (u : NodeInfo) : u ∈ collected t (t.bucketIndex target).val R ↔ u ∈ allNodes t :=
      ⟨fun hu => hsub hu, fun hu => hall hrest hu⟩
    exact ((List.perm_ext_iff_of_nodup hnd.of_map h.nodup_ids.of_map).mpr hmem).length_eq
  · rcases hend with henough | hrest
    · -- With no round at all there would be nobody.
      have hR : 0 < R := by
        rcases Nat.eq_zero_or_pos R with rfl | hR
        · simp only [collected, List.range_zero, List.flatMap_nil, List.length_nil] at henough
          omega
        · exact hR
      have hring := mem_ring_of_lower le_rfl hu
      rw [Nat.sub_self] at hring
      exact List.mem_flatMap.mpr ⟨0, List.mem_range.mpr hR, hring⟩
    · obtain ⟨hi, hn⟩ := mem_nodesAt.mp hu
      exact hall hrest (mem_allNodes.mpr ⟨_, hn⟩)

theorem Placed.length_closestNodes (h : Placed t) (target : NodeId) (count : Nat) :
    (t.closestNodes target count).length = min count t.size := by
  obtain ⟨c, hclosest, hnd, hsub, hlen, -⟩ := exists_candidates h target count
  have hle := (hnd.of_map.subperm hsub).length_le
  rw [hclosest, length_nearest, ← length_allNodes]
  omega

theorem Placed.sorted_closestNodes (h : Placed t) (target : NodeId) (count : Nat) :
    Sorted target (t.closestNodes target count) := by
  obtain ⟨c, hclosest, hnd, -⟩ := exists_candidates h target count
  rw [hclosest]
  exact (nearest_pairwise (closer_iff target) (nodup_dist target hnd)).imp fun hlt => (cmp_lt_iff target _ _).mpr hlt

theorem Placed.closestNodes_subset (h : Placed t) (target : NodeId) (count : Nat) :
    t.closestNodes target count ⊆ allNodes t := by
  obtain ⟨c, hclosest, hnd, hsub, -⟩ := exists_candidates h target count
  rw [hclosest]
  exact fun u hu => hsub ((mem_nearest (closer_iff target) (nodup_dist target hnd)).mp hu).1

/-- A stored peer is in its own bucket, and nobody is nearer to it. -/
theorem Placed.mem_closestNodes (h : Placed t) (hn : n ∈ allNodes t) (hcount : 1 ≤ count) :
    n ∈ t.closestNodes n.nodeId count := by
  obtain ⟨c, hclosest, hnd, -, -, hown⟩ := exists_candidates h n.nodeId count
  obtain ⟨i, hi⟩ := mem_allNodes.mp hn
  obtain ⟨hne, hplace⟩ := h.placed i n hi
  have hindex : (t.bucketIndex n.nodeId).val = i.val := by rw [bucketIndex_val t n.nodeId hne.symm, hplace]
  have hc : n ∈ c := hown hcount n (mem_nodesAt.mpr ⟨(t.bucketIndex n.nodeId).isLt, by
    rwa [show t.bucketIndex n.nodeId = i from Fin.ext hindex]⟩)
  rw [hclosest, mem_nearest (closer_iff n.nodeId) (nodup_dist n.nodeId hnd), rank_self]
  exact ⟨hc, hcount⟩

theorem Placed.head_closestNodes (h : Placed t) (hcount : 1 ≤ count) :
    (∃ n, (t.closestNodes target count).head? = some n ∧ n.nodeId = target) ↔ target ∈ ids (allNodes t) := by
  constructor
  · rintro ⟨n, hn, rfl⟩
    exact List.mem_map_of_mem (h.closestNodes_subset n.nodeId count (List.mem_of_head? hn))
  · intro hstored
    obtain ⟨n, hn, rfl⟩ := List.mem_map.mp hstored
    have hin := h.mem_closestNodes hn hcount
    have hsorted := h.sorted_closestNodes n.nodeId count
    cases hlist : t.closestNodes n.nodeId count with
    | nil =>
      rw [hlist] at hin
      cases hin
    | cons m rest =>
      rw [hlist] at hin hsorted
      refine ⟨m, rfl, ?_⟩
      rcases List.mem_cons.mp hin with rfl | hin
      · rfl
      · have hlt := (cmp_lt_iff n.nodeId m n).mp ((List.pairwise_cons.mp hsorted).1 n hin)
        rw [dist_self] at hlt
        exact absurd hlt (Nat.not_lt_zero _)

/-- What the handlers look for in the one entry that they get. -/
theorem Placed.find_closestNodes (h : Placed t) {p : NodeInfo → Bool} (hp : ∀ n, p n = true → n.nodeId = target) :
    (t.closestNodes target 1).find? p = some n ↔ n ∈ allNodes t ∧ p n = true := by
  constructor
  · intro hfind
    exact ⟨h.closestNodes_subset target 1 (List.mem_of_find?_eq_some hfind), List.find?_some hfind⟩
  · rintro ⟨hn, hpn⟩
    obtain rfl := hp n hpn
    have hin := h.mem_closestNodes hn le_rfl
    have hlen := h.length_closestNodes n.nodeId 1
    obtain ⟨m, hm⟩ := List.length_eq_one_iff.mp (le_antisymm (by omega) (List.length_pos_of_mem hin))
    rw [hm, List.mem_singleton] at hin
    rw [hm, ← hin, List.find?_cons_of_pos hpn]

end

/-! ## The handlers -/

section

variable {t t' : RoutingTable} {node : NodeInfo} {lrs : NodeId} {now : Nat}

/-- An insert that reports a peer leaves the peers as they are. -/
theorem insert_bucketFull (h : t.insert now node = .ok (t', .bucketFull lrs)) :
    t'.localId = t.localId ∧ (∀ i, (t'.bucket i).nodes = (t.bucket i).nodes) ∧
      ∃ n rest, (t.bucket (t.bucketIndex node.nodeId)).nodes = n :: rest ∧ n.nodeId = lrs := by
  unfold RoutingTable.insert at h
  split at h
  · cases h
  obtain ⟨⟨b, r⟩, hb, hr⟩ := bind_ok h
  cases hr
  unfold KBucket.insert at hb
  split at hb
  · cases hb
  split at hb
  · cases hb
  split at hb
  · cases hb
  next n rest hnodes =>
    cases hb
    refine ⟨rfl, fun i => ?_, n, rest, hnodes, rfl⟩
    rw [bucket_setBucket]
    split
    next hi =>
      rw [← hi]
      rfl
    next => rfl

theorem Placed.bucketFull (h : Placed t) (hinsert : t.insert now node = .ok (t', .bucketFull lrs)) :
    Placed t' ∧ lrs ∈ ids (allNodes t') := by
  obtain ⟨hlocal, hnodes, n, rest, hfirst, rfl⟩ := insert_bucketFull hinsert
  refine ⟨⟨fun i => ?_, fun i m hm => ?_⟩, List.mem_map_of_mem (mem_allNodes.mpr ⟨t.bucketIndex node.nodeId, ?_⟩)⟩
  · rw [hnodes]
    exact h.nodup i
  · rw [hnodes] at hm
    rw [hlocal]
    exact h.placed i m hm
  · rw [hnodes, hfirst]
    exact List.mem_cons_self

end

/-- What the relay handler sends is the inner message, to the target that it found. -/
theorem forward_requests (ctx : HandlerContext) (inputs : Nat → Input) (targetId : Bytes32) (inner : Message)
    (m : Nat) (s : NodeState) :
    (exec (Op.apply ctx.build ctx.crates.sha256) inputs m (ctx.forward targetId inner) s).2.requests =
      s.requests ++ (((s.routingTable.closestNodes (NodeId.fromBytes targetId) 1).find? fun n =>
        n.nodeId = NodeId.fromBytes targetId ∧ n.addresses ≠ []).map fun n =>
          (⟨.forwarded, n.addresses, inner⟩ : Outgoing)).toList := by
  rw [HandlerContext.forward, perform_bind, exec]
  dsimp only [Op.apply]
  split
  next hfind =>
    rw [hfind]
    simp
  next n hfind =>
    have hfound : n.nodeId = NodeId.fromBytes targetId ∧ n.addresses ≠ [] := by simpa using List.find?_some hfind
    rw [hfind, sendRequestAny, if_neg hfound.2]
    simp only [perform_bind, op_bind, exec, Op.apply]
    split
    · rfl
    · split <;> rfl

/-- Whatever run of operations led to the table, as long as its ids are distinct: a lookup has as many
entries as there are, in order, its head is the peer of the id if that is stored, the relay handler
forwards to its target just when that is stored with an address, and the peer that an insert reports is
found. -/
theorem closestNodes_finds (localId : NodeId) (k start : Nat) (ops : List TableOp)
    (hok : Meets TableRun.step Allowed (TableRun.start start localId k) ops)
    (hdistinct : Distinct (run TableRun.step (TableRun.start start localId k) ops)) :
    let t := (run TableRun.step (TableRun.start start localId k) ops).table
    (∀ id count, (t.closestNodes id count).length = min count t.size ∧ Sorted id (t.closestNodes id count) ∧
      (ids (t.closestNodes id count)).Nodup ∧
      (1 ≤ count → ((∃ n, (t.closestNodes id count).head? = some n ∧ n.nodeId = id) ↔ id ∈ ids (allNodes t)))) ∧
    (∀ ctx inputs m targetId inner (s : NodeState) out, s.routingTable = t →
      ((exec (Op.apply ctx.build ctx.crates.sha256) inputs m (HandlerContext.forward ctx targetId inner) s).2.requests =
          s.requests ++ [out] ↔
        ∃ n ∈ allNodes t, n.nodeId = NodeId.fromBytes targetId ∧ n.addresses ≠ [] ∧
          out = ⟨.forwarded, n.addresses, inner⟩)) ∧
    ∀ now node t' lrs, t.insert now node = .ok (t', .bucketFull lrs) →
      ∃ n ∈ allNodes t', (t'.closestNodes lrs 1).find? (fun n => n.nodeId = lrs) = some n := by
  have h := run_placed_of_distinct start localId k ops hok hdistinct
  intro t
  refine ⟨fun id count => ⟨h.length_closestNodes id count, h.sorted_closestNodes id count,
    nodup_ids_closestNodes h.nodup_ids id count, h.head_closestNodes⟩, ?_, ?_⟩
  · intro ctx inputs m targetId inner s out hs
    have hfound (n : NodeInfo) : ((t.closestNodes (NodeId.fromBytes targetId) 1).find? fun n =>
        n.nodeId = NodeId.fromBytes targetId ∧ n.addresses ≠ []) = some n ↔ _ :=
      h.find_closestNodes fun n hn => (of_decide_eq_true hn).1
    rw [forward_requests, hs, List.append_cancel_left_eq]
    constructor
    · intro hout
      cases hfind : (t.closestNodes (NodeId.fromBytes targetId) 1).find? fun n =>
          n.nodeId = NodeId.fromBytes targetId ∧ n.addresses ≠ [] with
      | none =>
        rw [hfind] at hout
        cases hout
      | some n =>
        rw [hfind] at hout
        cases hout
        obtain ⟨hn, hp⟩ := (hfound n).mp hfind
        obtain ⟨hid, haddrs⟩ := of_decide_eq_true hp
        exact ⟨n, hn, hid, haddrs, rfl⟩
    · rintro ⟨n, hn, hid, haddrs, rfl⟩
      rw [(hfound n).mpr ⟨hn, decide_eq_true ⟨hid, haddrs⟩⟩]
      rfl
  · intro now node t' lrs hinsert
    obtain ⟨h', hlrs⟩ := h.bucketFull hinsert
    obtain ⟨n, hn, rfl⟩ := List.mem_map.mp hlrs
    exact ⟨n, hn, (h'.find_closestNodes fun m hm => of_decide_eq_true hm).mpr ⟨hn, decide_eq_true rfl⟩⟩

/-- After the eviction the newcomer is found. -/
theorem closestNodes_finds_newcomer :
    ∃ n, ((run TableRun.step (TableRun.start 0 (idOf 0) 1) evictionOps).table.closestNodes (idOf 0x81) 1).head? =
      some n ∧ n.nodeId = idOf 0x81 := by
  have hdistinct : Distinct (run TableRun.step (TableRun.start 0 (idOf 0) 1) evictionOps) := by
    unfold Distinct
    decide +kernel
  obtain ⟨hlookup, -⟩ := closestNodes_finds (idOf 0) 1 0 evictionOps (by decide) hdistinct
  exact ((hlookup (idOf 0x81) 1).2.2.2 le_rfl).mpr (by decide +kernel)

end TesserasDht.ClosestNodes
