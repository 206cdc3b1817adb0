import TesserasDht.Lib.Nearest
import TesserasDht.Lookup
import TesserasDht.Distances
import TesserasDht.TableRuns

/-!
# When is `closest_nodes` exact?

Seen from the target, its own bucket is the nearest, then come all buckets above it together, and then
the lower ones one after the other. The walk takes one bucket of either side at a time.
-/

open Lib.Runs Lib.Nearest TesserasDht.Routing

namespace TesserasDht.ClosestNodes

open Lookup (dist closer_iff)
open Distances (distance_range distance_xor)

/-! ## Prefixes and distances -/

section

variable {l t p q : NodeId}

theorem dist_self (n : NodeInfo) : dist n.nodeId n = 0 := by
  rw [Lookup.dist, distance_xor n.nodeId, Nat.xor_self]

/-- A peer that leaves the prefix of the local id before the target does. -/
theorem distance_below (hlp : l ≠ p) (h : l.commonPrefixLength p < l.commonPrefixLength t) :
    2 ^ (255 - l.commonPrefixLength p) ≤ (t.distance p).value ∧
      (t.distance p).value < 2 ^ (256 - l.commonPrefixLength p) := by
  obtain ⟨hlt, hlow, hhigh⟩ := distance_range hlp
  have hexp : 256 - l.commonPrefixLength p = 255 - l.commonPrefixLength p + 1 := by omega
  rw [distance_xor l t p]
  rw [hexp] at hhigh ⊢
  refine Lib.Xor.xor_mem_top ?_ hlow hhigh
  by_cases hlt' : l = t
  · subst hlt'
    rw [distance_xor l l l, Nat.xor_self]
    exact Nat.two_pow_pos _
  · obtain ⟨-, -, hbound⟩ := distance_range hlt'
    exact lt_of_lt_of_le hbound (Nat.pow_le_pow_right (by decide) (by omega))

/-- A peer that leaves it later. -/
theorem distance_above (hlt : l ≠ t) (hlp : l ≠ p) (h : l.commonPrefixLength t < l.commonPrefixLength p) :
    2 ^ (255 - l.commonPrefixLength t) ≤ (t.distance p).value ∧
      (t.distance p).value < 2 ^ (256 - l.commonPrefixLength t) := by
  obtain ⟨hc, hlow, hhigh⟩ := distance_range hlt
  have hexp : 256 - l.commonPrefixLength t = 255 - l.commonPrefixLength t + 1 := by omega
  rw [distance_xor l t p, Nat.xor_comm]
  rw [hexp] at hhigh ⊢
  refine Lib.Xor.xor_mem_top ?_ hlow hhigh
  obtain ⟨-, -, hbound⟩ := distance_range hlp
  exact lt_of_lt_of_le hbound (Nat.pow_le_pow_right (by decide) (by omega))

/-- A peer that leaves it at the same bit. -/
theorem distance_same (hlt : l ≠ t) (hlp : l ≠ p) (h : l.commonPrefixLength p = l.commonPrefixLength t) :
    (t.distance p).value < 2 ^ (255 - l.commonPrefixLength t) := by
  obtain ⟨hc, hlow, hhigh⟩ := distance_range hlt
  obtain ⟨-, hlow', hhigh'⟩ := distance_range hlp
  have hexp : 256 - l.commonPrefixLength t = 255 - l.commonPrefixLength t + 1 := by omega
  rw [h] at hlow' hhigh'
  rw [hexp] at hhigh hhigh'
  rw [distance_xor l t p]
  exact Lib.Xor.xor_lt_top hlow hhigh hlow' hhigh'

theorem lower_is_farther (hlp : l ≠ p) (hlq : l ≠ q) (h : l.commonPrefixLength p < l.commonPrefixLength t)
    (hpq : l.commonPrefixLength p < l.commonPrefixLength q) :
    (t.distance q).value < (t.distance p).value := by
  obtain ⟨hlow, -⟩ := distance_below hlp h
  have hq := NodeId.commonPrefixLength_lt l q hlq
  refine lt_of_lt_of_le ?_ hlow
  have hself (he : l.commonPrefixLength t < 256) : l ≠ t := by
    rintro rfl
    rw [commonPrefixLength_self] at he
    exact lt_irrefl _ he
  rcases Nat.lt_trichotomy (l.commonPrefixLength q) (l.commonPrefixLength t) with hqt | hqt | hqt
  · exact lt_of_lt_of_le (distance_below hlq hqt).2 (Nat.pow_le_pow_right (by decide) (by omega))
  · exact lt_of_lt_of_le (distance_same (hself (by omega)) hlq hqt)
      (Nat.pow_le_pow_right (by decide) (by omega))
  · exact lt_of_lt_of_le (distance_above (hself (by omega)) hlq hqt).2
      (Nat.pow_le_pow_right (by decide) (by omega))

end

/-! ## Peers in their buckets -/

/-- Distinct ids, each in the bucket of its common prefix. -/
structure Placed (t : RoutingTable) : Prop where
  nodup : ∀ i, (ids (t.bucket i).nodes).Nodup
  placed : ∀ i, ∀ n ∈ (t.bucket i).nodes, t.localId ≠ n.nodeId ∧ t.localId.commonPrefixLength n.nodeId = i.val

/-- All stored peers. -/
def allNodes (t : RoutingTable) : List NodeInfo := (List.finRange 256).flatMap fun i => (t.bucket i).nodes

/-- The peers of the buckets from `c` on. -/
def nodesFrom (t : RoutingTable) (c : Nat) : List NodeInfo :=
  ((List.finRange 256).filter fun i => c ≤ i.val).flatMap fun i => (t.bucket i).nodes

section

variable {t : RoutingTable} {n : NodeInfo}

theorem mem_nodesAt {i : Nat} : n ∈ t.nodesAt i ↔ ∃ h : i < 256, n ∈ (t.bucket ⟨i, h⟩).nodes := by
  unfold RoutingTable.nodesAt RoutingTable.bucket
  by_cases h : i < 256
  · have hlt : i < t.buckets.length := by rw [t.len]; exact h
    rw [List.getElem?_eq_getElem hlt]
    simp [h]
  · rw [List.getElem?_eq_none (by rw [t.len]; omega)]
    simp [h]

theorem mem_allNodes : n ∈ allNodes t ↔ ∃ i, n ∈ (t.bucket i).nodes := by simp [allNodes]

theorem Placed.index (h : Placed t) {i : Nat} (hn : n ∈ t.nodesAt i) :
    t.localId ≠ n.nodeId ∧ t.localId.commonPrefixLength n.nodeId = i := by
  obtain ⟨hi, hn⟩ := mem_nodesAt.mp hn
  exact h.placed ⟨i, hi⟩ n hn

theorem Placed.nodup_ids (h : Placed t) : (ids (allNodes t)).Nodup := by
  rw [ids, allNodes, List.map_flatMap, List.nodup_flatMap]
  refine ⟨fun i _ => h.nodup i, (List.nodup_finRange 256).imp ?_⟩
  intro i j hij id hi hj
  obtain ⟨m, hm, rfl⟩ := List.mem_map.mp hi
  obtain ⟨n, hn, he⟩ := List.mem_map.mp hj
  refine hij (Fin.ext ?_)
  rw [← (h.placed i m hm).2, ← (h.placed j n hn).2, he]

end

/-! ## The walk -/

/-- What round `s` collects around the bucket `c`. -/
def ring (t : RoutingTable) (c s : Nat) : List NodeInfo :=
  (if s ≤ c then t.nodesAt (c - s) else []) ++ t.nodesAt (c + 1 + s)

/-- What the first `r` rounds collect. -/
def collected (t : RoutingTable) (c r : Nat) : List NodeInfo := (List.range r).flatMap (ring t c)

section

variable {t : RoutingTable} {c count : Nat}

theorem collected_succ (r : Nat) : collected t c (r + 1) = collected t c r ++ ring t c r := by
  rw [collected, List.range_succ, List.flatMap_append, List.flatMap_singleton]
  rfl

theorem nodesAt_eq_nil {i : Nat} (h : 256 ≤ i) : t.nodesAt i = [] := by
  rw [RoutingTable.nodesAt, List.getElem?_eq_none (by rw [t.len]; exact h)]
  rfl

/-- By induction on the rounds left: each round that is made finds too few peers before it, and the
walk ends with enough of them or with all. -/
theorem walk_eq (t : RoutingTable) (count : Nat) (hc : c < 256) (rounds r : Nat) (hr : rounds + r = 256) :
    ∃ R, t.walk count rounds (c + 1 - r) (min (c + 1 + r) 256) (collected t c r) = collected t c R ∧
      (∀ s, r ≤ s → s < R → (collected t c s).length < count) ∧
      (count ≤ (collected t c R).length ∨ ∀ s, R ≤ s → ring t c s = []) := by
  induction rounds generalizing r with
  | zero =>
    refine ⟨r, rfl, fun s hs hs' => by omega, Or.inr fun s hs => ?_⟩
    rw [ring, if_neg (by omega), nodesAt_eq_nil (by omega)]
    rfl
  | succ rounds ih =>
    unfold RoutingTable.walk
    split
    next hcond =>
      obtain ⟨R, hwalk, hfew, hend⟩ := ih (r + 1) (by omega)
      refine ⟨R, ?_, fun s hs hs' => ?_, hend⟩
      · have hlow : (if 0 < c + 1 - r then collected t c r ++ t.nodesAt (c + 1 - r - 1) else collected t c r) =
            collected t c r ++ if r ≤ c then t.nodesAt (c - r) else [] := by
          by_cases hle : r ≤ c
          · rw [if_pos (by omega), if_pos hle, show c + 1 - r - 1 = c - r by omega]
          · rw [if_neg (by omega), if_neg hle, List.append_nil]
        have hhigh (l : List NodeInfo) : (if min (c + 1 + r) 256 < 256 then
            l ++ t.nodesAt (min (c + 1 + r) 256) else l) = l ++ t.nodesAt (c + 1 + r) := by
          by_cases hlt : c + 1 + r < 256
          · rw [Nat.min_eq_left (by omega), if_pos hlt]
          · rw [if_neg (by omega), nodesAt_eq_nil (by omega), List.append_nil]
        have hhi : (if min (c + 1 + r) 256 < 256 then min (c + 1 + r) 256 + 1 else min (c + 1 + r) 256) =
            min (c + 1 + (r + 1)) 256 := by
          split <;> omega
        simp only [hlow, hhigh, hhi]
        rw [← hwalk, collected_succ, ring, List.append_assoc, show c + 1 - r - 1 = c + 1 - (r + 1) by omega]
      · rcases Nat.eq_or_lt_of_le hs with rfl | hs
        · exact hcond.1
        · exact hfew s hs hs'
    next hcond =>
      refine ⟨r, rfl, fun s hs hs' => by omega, ?_⟩
      by_cases hcount : count ≤ (collected t c r).length
      · exact Or.inl hcount
      · refine Or.inr fun s hs => ?_
        have hdone : ¬(0 < c + 1 - r ∨ min (c + 1 + r) 256 < 256) := fun h => hcond ⟨by omega, h⟩
        rw [ring, if_neg (by omega), nodesAt_eq_nil (by omega)]
        rfl

/-- The rounds that `closest_nodes` makes. -/
theorem exists_rounds (t : RoutingTable) (target : NodeId) (count : Nat) : ∃ R,
    t.closestNodes target count =
      nearest (RoutingTable.closer target) count (collected t (t.bucketIndex target).val R) ∧
    (∀ s < R, (collected t (t.bucketIndex target).val s).length < count) ∧
    (count ≤ (collected t (t.bucketIndex target).val R).length ∨
      ∀ s, R ≤ s → ring t (t.bucketIndex target).val s = []) := by
  have hc : (t.bucketIndex target).val < 256 := (t.bucketIndex target).isLt
  obtain ⟨R, hwalk, hfew, hend⟩ := walk_eq t count hc 256 0 rfl
  refine ⟨R, ?_, fun s => hfew s (Nat.zero_le s), hend⟩
  rw [RoutingTable.closestNodes, nearest, ← hwalk]
  simp only [collected, List.range_zero, List.flatMap_nil, Nat.sub_zero, Nat.add_zero]
  rw [Nat.min_eq_left (by omega)]

theorem mem_ring_of_lower {j : Nat} {u : NodeInfo} (hj : j ≤ c) (hu : u ∈ t.nodesAt j) :
    u ∈ ring t c (c - j) := by
  rw [ring, if_pos (by omega), show c - (c - j) = j by omega]
  exact List.mem_append_left _ hu

theorem mem_ring_of_upper {j : Nat} {u : NodeInfo} (hj : c < j) (hu : u ∈ t.nodesAt j) :
    u ∈ ring t c (j - c - 1) := by
  rw [ring, show c + 1 + (j - c - 1) = j by omega]
  exact List.mem_append_right _ hu

theorem bucket_of_mem_ring {s : Nat} {u : NodeInfo} (hu : u ∈ ring t c s) :
    ∃ j, u ∈ t.nodesAt j ∧ (s ≤ c ∧ j = c - s ∨ j = c + 1 + s) := by
  rcases List.mem_append.mp hu with hu | hu
  · split at hu
    next hs => exact ⟨c - s, hu, Or.inl ⟨hs, rfl⟩⟩
    next => cases hu
  · exact ⟨c + 1 + s, hu, Or.inr rfl⟩

theorem Placed.ring_unique (h : Placed t) {s s' : Nat} {u : NodeInfo} (hu : u ∈ ring t c s)
    (hu' : u ∈ ring t c s') : s = s' := by
  obtain ⟨j, hj, hs⟩ := bucket_of_mem_ring hu
  obtain ⟨j', hj', hs'⟩ := bucket_of_mem_ring hu'
  have := (h.index hj).2
  have := (h.index hj').2
  omega

theorem collected_subset (r : Nat) : collected t c r ⊆ allNodes t := by
  intro u hu
  obtain ⟨s, -, hu⟩ := List.mem_flatMap.mp hu
  obtain ⟨j, hj, -⟩ := bucket_of_mem_ring hu
  obtain ⟨hlt, hn⟩ := mem_nodesAt.mp hj
  exact mem_allNodes.mpr ⟨_, hn⟩

theorem countP_collected (p : NodeInfo → Bool) (r : Nat) :
    (collected t c r).countP p = ∑ i ∈ Finset.Ico (c + 1 - r) (c + 1 + r), (t.nodesAt i).countP p := by
  induction r with
  | zero => simp [collected]
  | succ r ih =>
    rw [collected_succ, List.countP_append, ih, ring, List.countP_append,
      show c + 1 + (r + 1) = c + 1 + r + 1 by omega,
      Finset.sum_Ico_succ_top (by omega : c + 1 - (r + 1) ≤ c + 1 + r)]
    by_cases hle : r ≤ c
    · rw [if_pos hle, Finset.sum_eq_sum_Ico_succ_bot (by omega : c + 1 - (r + 1) < c + 1 + r),
        show c + 1 - (r + 1) = c - r by omega, show c - r + 1 = c + 1 - r by omega]
      omega
    · rw [if_neg hle, show c + 1 - (r + 1) = c + 1 - r by omega, List.countP_nil]
      omega

theorem length_collected (r : Nat) :
    (collected t c r).length = ∑ i ∈ Finset.Ico (c + 1 - r) (c + 1 + r), (t.nodesAt i).length := by
  simpa only [List.countP_true] using countP_collected (t := t) (c := c) (fun _ => true) r

theorem countP_allNodes (t : RoutingTable) (p : NodeInfo → Bool) :
    (allNodes t).countP p = ∑ i ∈ Finset.range 256, (t.nodesAt i).countP p := by
  rw [allNodes, List.countP_flatMap, Finset.sum_range, ← List.sum_ofFn, List.ofFn_eq_map]
  congr 2
  funext i
  rw [Function.comp_apply, RoutingTable.nodesAt, List.getElem?_eq_getElem (by rw [t.len]; exact i.isLt)]
  rfl

theorem countP_collected_le (p : NodeInfo → Bool) (r : Nat) :
    (collected t c r).countP p ≤ (allNodes t).countP p := by
  rw [countP_collected, countP_allNodes]
  refine Finset.sum_le_sum_of_ne_zero fun i _ hne => Finset.mem_range.mpr ?_
  by_contra hge
  rw [nodesAt_eq_nil (by omega)] at hne
  exact hne rfl

theorem nodup_ids_collected (h : (ids (allNodes t)).Nodup) (r : Nat) : (ids (collected t c r)).Nodup := by
  rw [List.nodup_iff_count_le_one] at h ⊢
  intro id
  have hid := h id
  rw [ids, List.count_eq_countP, List.countP_map] at hid ⊢
  exact le_trans (countP_collected_le _ r) hid

theorem nodup_ids_closestNodes (h : (ids (allNodes t)).Nodup) (target : NodeId) (count : Nat) :
    (ids (t.closestNodes target count)).Nodup := by
  obtain ⟨R, hclosest, -⟩ := exists_rounds t target count
  rw [hclosest]
  exact ((List.take_sublist _ _).map _).nodup (((List.perm_insertionSort (RoutingTable.closer target)
    _).map NodeInfo.nodeId).nodup_iff.mpr (nodup_ids_collected h R))

end

/-! ## Which peers are collected -/

/-- A peer of a bucket above the target's, of which fewer than `count` peers from that bucket on are
nearer, is found before the walk has `count` peers of the buckets in between and of as many below. -/
def Reached (t : RoutingTable) (target : NodeId) (count : Nat) : Prop :=
  let c := (t.bucketIndex target).val
  ∀ j, c < j → ∀ u ∈ t.nodesAt j, rank (dist target) (nodesFrom t c) u < count →
    ∑ i ∈ Finset.Ico (c + 1 - (j - c - 1)) j, (t.nodesAt i).length < count

section

variable {t : RoutingTable} {target : NodeId} {count : Nat}

theorem Placed.lower_is_farther (h : Placed t) (target : NodeId) {i j : Nat} {p q : NodeInfo}
    (hp : p ∈ t.nodesAt i) (hq : q ∈ t.nodesAt j) (hi : i < (t.bucketIndex target).val) (hij : i < j) :
    dist target q < dist target p := by
  obtain ⟨hlp, hpi⟩ := h.index hp
  obtain ⟨hlq, hqj⟩ := h.index hq
  rw [RoutingTable.bucketIndex] at hi
  dsimp only at hi
  exact ClosestNodes.lower_is_farther hlp hlq (by omega) (by omega)

/-- What the walk has before it comes to a lower bucket is nearer than a peer of that bucket. -/
theorem Placed.length_collected_le (h : Placed t) {j : Nat} {u : NodeInfo} (hu : u ∈ t.nodesAt j)
    (hj : j ≤ (t.bucketIndex target).val) :
    (collected t (t.bucketIndex target).val ((t.bucketIndex target).val - j)).length ≤
      rank (dist target) (allNodes t) u := by
  have hsub : collected t (t.bucketIndex target).val ((t.bucketIndex target).val - j) ⊆
      (allNodes t).filter fun v => dist target v < dist target u := by
    intro v hv
    refine List.mem_filter.mpr ⟨collected_subset _ hv, decide_eq_true ?_⟩
    obtain ⟨s, hs, hv⟩ := List.mem_flatMap.mp hv
    rw [List.mem_range] at hs
    obtain ⟨i, hi, hplace⟩ := bucket_of_mem_ring hv
    exact h.lower_is_farther target hu hi (by omega) (by omega)
  have hlen := (List.subperm_of_subset (nodup_ids_collected h.nodup_ids _).of_map hsub).length_le
  rwa [← List.countP_eq_length_filter] at hlen

theorem Placed.rank_nodesFrom (h : Placed t) {j : Nat} {u : NodeInfo} (hu : u ∈ t.nodesAt j)
    (hj : (t.bucketIndex target).val < j) :
    rank (dist target) (nodesFrom t (t.bucketIndex target).val) u = rank (dist target) (allNodes t) u := by
  have hskip (l : List (Fin 256)) : ((l.filter fun i => (t.bucketIndex target).val ≤ i.val).flatMap
      fun i => (t.bucket i).nodes).countP (fun v => dist target v < dist target u) =
        (l.flatMap fun i => (t.bucket i).nodes).countP fun v => dist target v < dist target u := by
    induction l with
    | nil => rfl
    | cons i rest ih =>
      rw [List.flatMap_cons, List.countP_append, ← ih]
      by_cases hi : (t.bucketIndex target).val ≤ i.val
      · rw [List.filter_cons_of_pos (by simpa using hi), List.flatMap_cons, List.countP_append]
      · have hnone : (t.bucket i).nodes.countP (fun v => dist target v < dist target u) = 0 := by
          rw [List.countP_eq_zero]
          intro v hv
          have hlt := h.lower_is_farther target (mem_nodesAt.mpr ⟨i.isLt, hv⟩) hu (by omega)
            (by omega)
          simp only [decide_eq_true_eq]
          omega
        rw [List.filter_cons_of_neg (by simpa using hi), hnone, Nat.zero_add]
  exact hskip (List.finRange 256)

theorem Placed.closestNodes_iff (h : Placed t) (target : NodeId) (count : Nat) :
    t.closestNodes target count =
        ((allNodes t).insertionSort (RoutingTable.closer target)).take count ↔
      Reached t target count := by
  obtain ⟨R, hclosest, hfew, hend⟩ := exists_rounds t target count
  -- A round is made just when the rounds before it found too few peers.
  have hmade {s : Nat} {u : NodeInfo} (hu : u ∈ ring t (t.bucketIndex target).val s) :
      u ∈ collected t (t.bucketIndex target).val R ↔
        (collected t (t.bucketIndex target).val s).length < count := by
    constructor
    · intro hin
      obtain ⟨s', hs', hu'⟩ := List.mem_flatMap.mp hin
      rw [h.ring_unique hu hu']
      exact hfew s' (List.mem_range.mp hs')
    · intro hlt
      refine List.mem_flatMap.mpr ⟨s, List.mem_range.mpr ?_, hu⟩
      by_contra hge
      rcases hend with hcount | hempty
      · have hle : (collected t (t.bucketIndex target).val R).length ≤
            (collected t (t.bucketIndex target).val s).length := by
          rw [length_collected, length_collected]
          exact Finset.sum_le_sum_of_subset (Finset.Ico_subset_Ico (by omega) (by omega))
        omega
      · rw [hempty s (by omega)] at hu
        cases hu
  have hdist := Lookup.nodup_dist target h.nodup_ids
  have hsub := List.subperm_of_subset (nodup_ids_collected h.nodup_ids R).of_map
    (collected_subset (t := t) (c := (t.bucketIndex target).val) R)
  rw [hclosest, show ((allNodes t).insertionSort (RoutingTable.closer target)).take count =
    nearest (RoutingTable.closer target) count (allNodes t) from rfl,
    nearest_eq_iff (closer_iff target) hdist hsub]
  constructor
  · intro hall j hj u hu hrank
    rw [h.rank_nodesFrom hu hj] at hrank
    obtain ⟨hlt, hn⟩ := mem_nodesAt.mp hu
    have hin := (hmade (mem_ring_of_upper hj hu)).mp (hall u (mem_allNodes.mpr ⟨_, hn⟩) hrank)
    rwa [length_collected, show (t.bucketIndex target).val + 1 + (j - (t.bucketIndex target).val - 1) = j
      by omega] at hin
  · intro hreached u hu hrank
    obtain ⟨i, hn⟩ := mem_allNodes.mp hu
    have hu : u ∈ t.nodesAt i.val := mem_nodesAt.mpr ⟨i.isLt, hn⟩
    rcases Nat.lt_or_ge (t.bucketIndex target).val i.val with hi | hi
    · refine (hmade (mem_ring_of_upper hi hu)).mpr ?_
      rw [length_collected, show (t.bucketIndex target).val + 1 + (i.val - (t.bucketIndex target).val - 1) =
        i.val by omega]
      exact hreached i.val hi u hu (by rwa [h.rank_nodesFrom hu hi])
    · refine (hmade (mem_ring_of_lower hi hu)).mpr ?_
      exact lt_of_le_of_lt (h.length_collected_le hu hi) hrank

end

/-! ## Tables that inserts and removals make -/

def InsertOrRemove : TableOp → Prop
  | .insert _ _ | .remove _ => True
  | _ => False

instance InsertOrRemove.decidable : ∀ op, Decidable (InsertOrRemove op)
  | .insert _ _ | .remove _ => inferInstanceAs (Decidable True)
  | .evictAndInsert _ _ _ | .recordFailure _ _ | .recordFailureByAddr _ _ | .markSeen _ _ =>
    inferInstanceAs (Decidable False)

section

variable {k : Nat} {localId : NodeId} {ops : List TableOp}

theorem meets_insertOrRemove (hops : ∀ op ∈ ops, InsertOrRemove op) (s : TableRun) :
    Meets TableRun.step (fun _ op => InsertOrRemove op) s ops := by
  have hany : Meets TableRun.step (fun _ _ => True) s ops := meets_of_forall (fun _ _ => trivial) s ops
  exact (meets_mem hany).mono fun _ op h => hops op h.2

theorem InsertOrRemove.separate {op : TableOp} (h : InsertOrRemove op) (s : TableRun) : Separate s op := by
  cases op with
  | insert | remove => exact trivial
  | evictAndInsert | recordFailure | recordFailureByAddr | markSeen => exact h.elim

theorem step_empty (s : TableRun) (op : TableOp)
    (h : ∀ i, (s.table.bucket i).k = 0 ∧ (s.table.bucket i).nodes = []) :
    ∀ i, ((s.step op).table.bucket i).k = 0 ∧ ((s.step op).table.bucket i).nodes = [] := by
  have hset (i : Fin 256) {b : KBucket} (hb : b.k = 0 ∧ b.nodes = []) :
      ∀ j, ((s.table.setBucket i b).bucket j).k = 0 ∧ ((s.table.setBucket i b).bucket j).nodes = [] := by
    intro j
    rw [bucket_setBucket]
    split
    · exact hb
    · exact h j
  have hcharge (i : Fin 256) (id : NodeId) (max : UInt8) :
      (s.table.bucket i).recordFailure id max = s.table.bucket i := by
    rw [KBucket.recordFailure, (h i).2]
    rfl
  cases op with
  | insert now node =>
    have hsame : s.step (.insert now node) = s := by
      by_cases hne : node.nodeId = s.table.localId
      · simp only [TableRun.step, RoutingTable.insert, if_pos hne]
      · obtain ⟨hk, hnodes⟩ := h (s.table.bucketIndex node.nodeId)
        simp [TableRun.step, RoutingTable.insert, if_neg hne, KBucket.insert, KBucket.isFull, hk, hnodes, bind,
          Except.bind]
    rw [hsame]
    exact h
  | evictAndInsert now f node =>
    refine hset (s.table.bucketIndex f) (b := ((s.table.bucket _).evictAndInsert now f node).1) ?_
    rw [KBucket.evictAndInsert, (h _).2]
    exact h _
  | remove id =>
    refine hset (s.table.bucketIndex id) (b := ((s.table.bucket _).remove id).1) ?_
    rw [KBucket.remove, (h _).2]
    exact h _
  | recordFailure id max =>
    refine hset (s.table.bucketIndex id) ?_
    rw [hcharge]
    exact h _
  | recordFailureByAddr addr max =>
    intro i
    rcases bucket_recordFailureByAddr s.table addr max i with he | ⟨id, he⟩
    · rw [TableRun.step, he]
      exact h i
    · rw [TableRun.step, he, hcharge]
      exact h i
  | markSeen now id =>
    refine hset (s.table.bucketIndex id) ⟨(h _).1, ?_⟩
    rw [KBucket.markSeen, (h _).2]
    rfl

theorem run_empty (now : Nat) (localId : NodeId) (ops : List TableOp) (i : Fin 256) :
    ((run TableRun.step (TableRun.start now localId 0) ops).table.bucket i).nodes = [] := by
  have hstart : ∀ i, ((TableRun.start now localId 0).table.bucket i).k = 0 ∧
      ((TableRun.start now localId 0).table.bucket i).nodes = [] := by
    intro i
    rw [TableRun.start, bucket_new]
    exact ⟨rfl, rfl⟩
  have hany : Meets TableRun.step (fun _ _ => True) (TableRun.start now localId 0) ops :=
    meets_of_forall (fun _ _ => trivial) _ ops
  exact (run_inv (fun s op h _ => step_empty s op h) hstart hany i).2

theorem run_placed_of_distinct (now : Nat) (localId : NodeId) (k : Nat) (ops : List TableOp)
    (hok : Meets TableRun.step Allowed (TableRun.start now localId k) ops)
    (hdistinct : Distinct (run TableRun.step (TableRun.start now localId k) ops)) :
    Placed (run TableRun.step (TableRun.start now localId k) ops).table := by
  refine ⟨hdistinct, fun i n hn => ?_⟩
  rcases Nat.eq_zero_or_pos k with rfl | hk
  · rw [run_empty] at hn
    cases hn
  · have hinv := run_inv (step_inv hk) (inv_start now localId k) hok
    obtain ⟨hne, hplace⟩ := (hinv.buckets i).placed n.nodeId (Or.inl (List.mem_map_of_mem hn))
    rw [hinv.local_eq]
    exact ⟨hne.symm, hplace⟩

theorem run_placed (now : Nat) (localId : NodeId) (k : Nat) (ops : List TableOp)
    (hops : ∀ op ∈ ops, InsertOrRemove op) :
    Placed (run TableRun.step (TableRun.start now localId k) ops).table := by
  have hok := (meets_insertOrRemove hops (TableRun.start now localId k)).mono
    fun s _ hop => InsertOrRemove.separate hop s
  refine run_placed_of_distinct now localId k ops (hok.mono fun s _ hop => hop.allowed) fun i => ?_
  rcases Nat.eq_zero_or_pos k with rfl | hk
  · rw [run_empty]
    exact List.nodup_nil
  · exact (run_inv (step_distinct hk) ⟨inv_start now localId k, fun j => by
      rw [TableRun.start, bucket_new]
      exact List.nodup_nil⟩ hok).2 i

end

theorem closestNodes_exact_iff (now : Nat) (localId : NodeId) (k : Nat) (ops : List TableOp)
    (hops : ∀ op ∈ ops, InsertOrRemove op) (target : NodeId) (count : Nat) :
    (run TableRun.step (TableRun.start now localId k) ops).table.closestNodes target count =
        ((allNodes (run TableRun.step (TableRun.start now localId k) ops).table).insertionSort
          (RoutingTable.closer target)).take count ↔
      Reached (run TableRun.step (TableRun.start now localId k) ops).table target count :=
  (run_placed now localId k ops hops).closestNodes_iff target count

/-- Peers in the buckets 1 and 2 of a node. -/
def twoAbove : List TableOp := [.insert 1 (peerOf 0x40), .insert 2 (peerOf 0x20)]

/-- Above the bucket of the local id itself there is none. -/
theorem closestNodes_exact_iff_local :
    (run TableRun.step (TableRun.start 0 (idOf 0) 2) twoAbove).table.closestNodes (idOf 0) 1 =
      ((allNodes (run TableRun.step (TableRun.start 0 (idOf 0) 2) twoAbove).table).insertionSort
        (RoutingTable.closer (idOf 0))).take 1 := by
  refine (closestNodes_exact_iff 0 (idOf 0) 2 twoAbove (by decide) (idOf 0) 1).mpr ?_
  intro j hj u hu
  have hindex : ((run TableRun.step (TableRun.start 0 (idOf 0) 2) twoAbove).table.bucketIndex (idOf 0)).val = 255 := by
    decide +kernel
  rw [nodesAt_eq_nil (by omega)] at hu
  cases hu

/-- The target is in the empty bucket 0. The first round finds the peer of bucket 1, and stops. -/
theorem nearer_bucket_is_left_out : ∃ ops target count, (∀ op ∈ ops, InsertOrRemove op) ∧
    (run TableRun.step (TableRun.start 0 (idOf 0) 2) ops).table.closestNodes target count ≠
      ((allNodes (run TableRun.step (TableRun.start 0 (idOf 0) 2) ops).table).insertionSort
        (RoutingTable.closer target)).take count :=
  ⟨twoAbove, idOf 0x80, 1, by decide, by decide +kernel⟩

end TesserasDht.ClosestNodes
