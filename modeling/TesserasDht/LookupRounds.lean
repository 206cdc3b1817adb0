import TesserasDht.Lib.Nearest
import TesserasDht.Lookup

/-!
# What one round of a lookup keeps

A returned node is compared with the last entry of the shortlist, and in the round the last entry is
the last one that was pushed. So the round keeps the `k` closest if they come from far to near.
-/

open Lib.Nearest TesserasDht.Routing

namespace TesserasDht.Lookup

/-- The `k` entries of `pool` that are closest to `target`, one for each id. -/
structure KClosest (target : NodeId) (k : Nat) (pool l : List NodeInfo) : Prop where
  sorted : Sorted target l
  len : l.length ≤ k
  subset : ∀ n ∈ l, n ∈ pool
  closest : ∀ n ∈ pool, n.nodeId ∈ ids l ∨ l.length = k ∧ ∀ m ∈ l, dist target m < dist target n

/-- The returned nodes with an id that was not there before. -/
def fresh (selfId : NodeId) : List NodeId → List NodeInfo → List NodeInfo
  | _, [] => []
  | seen, n :: rest =>
    if n.nodeId = selfId ∨ n.nodeId ∈ seen then fresh selfId seen rest
    else n :: fresh selfId (n.nodeId :: seen) rest

/-- Among the nodes that are new, from the one on that fills the shortlist: those that belong to the
`k` closest come from far to near. -/
def FarToNear (target selfId : NodeId) (k : Nat) (closest returned : List NodeInfo) : Prop :=
  let new := fresh selfId (ids closest) returned
  ((new.drop (k - closest.length - 1)).filter fun n => rank (dist target) (closest ++ new) n < k).Pairwise
    fun a b => dist target b < dist target a

instance (target selfId : NodeId) (k : Nat) (closest returned : List NodeInfo) :
    Decidable (FarToNear target selfId k closest returned) := by
  unfold FarToNear; infer_instance

section

variable {target selfId : NodeId} {k : Nat}

/-! ## New nodes -/

theorem mem_fresh {seen : List NodeId} {l : List NodeInfo} {n : NodeInfo} (h : n ∈ fresh selfId seen l) :
    n ∈ l ∧ n.nodeId ≠ selfId ∧ n.nodeId ∉ seen := by
  induction l generalizing seen with
  | nil => cases h
  | cons x xs ih =>
    unfold fresh at h
    split at h
    next => exact ⟨List.mem_cons_of_mem _ (ih h).1, (ih h).2⟩
    next hnew =>
      rcases List.mem_cons.mp h with rfl | h
      · exact ⟨List.mem_cons_self, not_or.mp hnew⟩
      · obtain ⟨hmem, hself, hseen⟩ := ih h
        exact ⟨List.mem_cons_of_mem _ hmem, hself, fun hs => hseen (List.mem_cons_of_mem _ hs)⟩

theorem nodup_fresh (seen : List NodeId) (l : List NodeInfo) : (ids (fresh selfId seen l)).Nodup := by
  induction l generalizing seen with
  | nil => exact List.nodup_nil
  | cons x xs ih =>
    unfold fresh
    split
    · exact ih seen
    · refine List.nodup_cons.mpr ⟨?_, ih _⟩
      intro hmem
      obtain ⟨n, hn, hid⟩ := List.mem_map.mp hmem
      exact (mem_fresh hn).2.2 (hid ▸ List.mem_cons_self)

theorem fresh_complete (seen : List NodeId) {l : List NodeInfo} {n : NodeInfo} (hn : n ∈ l)
    (hself : n.nodeId ≠ selfId) : n.nodeId ∈ seen ∨ n.nodeId ∈ ids (fresh selfId seen l) := by
  induction l generalizing seen with
  | nil => cases hn
  | cons x xs ih =>
    unfold fresh
    rcases List.mem_cons.mp hn with rfl | hn
    · split
      next h => exact Or.inl (h.resolve_left hself)
      next => exact Or.inr List.mem_cons_self
    · split
      · exact ih seen hn
      · rcases ih (x.nodeId :: seen) hn with h | h
        · rcases List.mem_cons.mp h with he | h
          · exact Or.inr (List.mem_map.mpr ⟨x, List.mem_cons_self, he.symm⟩)
          · exact Or.inl h
        · exact Or.inr (List.mem_cons_of_mem _ h)

theorem nodup_pool (selfId : NodeId) (returned : List NodeInfo) {closest : List NodeInfo}
    (h : (ids closest).Nodup) :
    (ids (closest ++ fresh selfId (ids closest) returned)).Nodup := by
  rw [ids, List.map_append, List.nodup_append]
  refine ⟨h, nodup_fresh _ _, ?_⟩
  rintro a ha b hb rfl
  obtain ⟨n, hn, rfl⟩ := List.mem_map.mp hb
  exact (mem_fresh hn).2.2 ha

theorem sorted_iff {l : List NodeInfo} : Sorted target l ↔ l.Pairwise fun a b => dist target a < dist target b := by
  refine ⟨fun h => h.imp ?_, fun h => h.imp ?_⟩ <;> (intro a b hab; rwa [cmp_lt_iff] at *)

/-! ## The merge of a round -/

/-- The merge refused this id before, so the shortlist is full and its last entry is no farther. -/
def Refused (target : NodeId) (k : Nat) (c : List NodeInfo) (id : NodeId) : Prop :=
  k ≤ c.length ∧ ∃ last ∈ c.getLast?, ∀ n : NodeInfo, n.nodeId = id → dist target last ≤ dist target n

theorem Refused.not_admits {c : List NodeInfo} {node : NodeInfo} (h : Refused target k c node.nodeId) :
    ¬Admits (dist target) k c node := by
  obtain ⟨hfull, last, hlast, hle⟩ := h
  rintro (hroom | hnear)
  · omega
  · have := hnear last hlast
    have := hle node rfl
    omega

theorem refused_of_not_admits {c : List NodeInfo} {node : NodeInfo} (hc : c ≠ [] ∨ 1 ≤ k)
    (h : ¬Admits (dist target) k c node) : Refused target k c node.nodeId := by
  obtain ⟨hfull, hfar⟩ := not_or.mp h
  refine ⟨by omega, ?_⟩
  cases hlast : c.getLast? with
  | none =>
    have hnil := List.getLast?_eq_none_iff.mp hlast
    rw [hnil] at hfull
    exact absurd (hc.resolve_left (not_not.mpr hnil)) (by simpa using hfull)
  | some last =>
    simp only [hlast, Option.mem_def, Option.some.injEq, forall_eq', not_lt] at hfar
    refine ⟨last, rfl, fun n hid => ?_⟩
    rwa [dist, dist, hid]

/-- The next entry that is pushed is nearer still. -/
theorem Refused.push {c : List NodeInfo} {node : NodeInfo} {id : NodeId} (h : Refused target k c id)
    (hadmits : Admits (dist target) k c node) : Refused target k (c ++ [node]) id := by
  obtain ⟨hfull, last, hlast, hle⟩ := h
  refine ⟨by simp; omega, node, by simp, fun n hid => ?_⟩
  have hnear := (hadmits.resolve_left (by omega)) last hlast
  have := hle n hid
  omega

theorem admits_eq {c : List NodeInfo} (node : NodeInfo) (hc : c ≠ [] ∨ 1 ≤ k) :
    admits target k c node =
      .ok (decide (Admits (dist target) k c node)) := by
  unfold admits
  split
  next h =>
    have hadmits : Admits (dist target) k c node := Or.inl h
    rw [decide_eq_true hadmits]
  next h =>
    cases hlast : c.getLast? with
    | none =>
      have hnil := List.getLast?_eq_none_iff.mp hlast
      rw [hnil] at h
      exact absurd (hc.resolve_left (not_not.mpr hnil)) (by simpa using h)
    | some last =>
      simp only [Admits, hlast, cmp_lt_iff, h, false_or, Option.mem_def, Option.some.injEq, forall_eq']

/-- By induction on the returned nodes: an id that was refused once is refused again, so only the
first node of each new id counts. -/
theorem mergeAll_eq (returned c : List NodeInfo) (improved : Bool) (seen : List NodeId)
    (hc : c ≠ [] ∨ 1 ≤ k) (hsub : ∀ id ∈ ids c, id ∈ seen) (hseen : ∀ id ∈ seen, id ∈ ids c ∨ Refused target k c id) :
    ∃ improved', returned.foldlM (mergeNode target selfId k) (c, improved) =
      .ok (accept (dist target) k c (fresh selfId seen returned), improved') := by
  induction returned generalizing c improved seen with
  | nil => exact ⟨improved, rfl⟩
  | cons node rest ih =>
    rw [List.foldlM_cons, mergeNode]
    by_cases hself : node.nodeId = selfId
    · rw [fresh, if_pos (Or.inl hself), if_pos hself]
      exact ih c improved seen hc hsub hseen
    · rw [if_neg hself, admits_eq node hc]
      simp only [bind, Except.bind, pure, Except.pure]
      by_cases hmem : node.nodeId ∈ seen
      · rw [fresh, if_pos (Or.inr hmem)]
        have hskip : ¬((decide (Admits (dist target) k c node) && !c.any fun c => c.nodeId = node.nodeId) = true) := by
          rw [Bool.and_eq_true, not_and, decide_eq_true_iff, Bool.not_eq_true', ← Bool.not_eq_true,
            any_iff_mem, not_not]
          intro hadmits
          exact (hseen _ hmem).resolve_right fun href => href.not_admits hadmits
        rw [if_neg hskip]
        exact ih c improved seen hc hsub hseen
      · have hnew : (!c.any fun c => c.nodeId = node.nodeId) = true := by
          rw [Bool.not_eq_true', ← Bool.not_eq_true, any_iff_mem]
          exact fun h => hmem (hsub _ h)
        rw [fresh, if_neg (not_or.mpr ⟨hself, hmem⟩), accept, hnew, Bool.and_true]
        by_cases hadmits : Admits (dist target) k c node
        · rw [if_pos (decide_eq_true hadmits), if_pos hadmits]
          refine ih (c ++ [node]) true (node.nodeId :: seen) (Or.inl (by simp)) ?_ ?_
          · intro id hid
            rw [ids, List.map_append, List.mem_append] at hid
            rcases hid with hid | hid
            · exact List.mem_cons_of_mem _ (hsub id hid)
            · rw [List.mem_singleton.mp hid]
              exact List.mem_cons_self
          · intro id hid
            rcases List.mem_cons.mp hid with rfl | hid
            · exact Or.inl (by simp [ids])
            · rcases hseen id hid with hid | href
              · exact Or.inl (by rw [ids, List.map_append]; exact List.mem_append_left _ hid)
              · exact Or.inr (href.push hadmits)
        · rw [if_neg (by simpa using hadmits), if_neg hadmits]
          refine ih c improved (node.nodeId :: seen) hc ?_ ?_
          · exact fun id hid => List.mem_cons_of_mem _ (hsub id hid)
          · intro id hid
            rcases List.mem_cons.mp hid with rfl | hid
            · exact Or.inr (refused_of_not_admits hc hadmits)
            · exact hseen id hid

/-! ## The `k` closest -/

/-- Entries of a pool with distinct ids are its `k` closest just when they are its nearest. -/
theorem kClosest_iff {closest returned c : List NodeInfo} (hnd : (ids closest).Nodup)
    (hc : c.Sublist (closest ++ fresh selfId (ids closest) returned)) :
    KClosest target k (closest ++ returned.filter fun n => n.nodeId ≠ selfId)
        (nearest (RoutingTable.closer target) k c) ↔
      nearest (RoutingTable.closer target) k c =
        nearest (RoutingTable.closer target) k (closest ++ fresh selfId (ids closest) returned) := by
  have hpool := nodup_pool selfId returned hnd
  have hdist := nodup_dist target hpool
  have hcdist : (c.map (dist target)).Nodup := hdist.sublist (hc.map _)
  constructor
  · intro h
    refine (nearest_eq_iff (closer_iff target) hdist hc.subperm).mpr ?_
    intro u hu hrank
    have hin : u ∈ closest ++ returned.filter fun n => n.nodeId ≠ selfId := by
      rcases List.mem_append.mp hu with hu | hu
      · exact List.mem_append_left _ hu
      · obtain ⟨hmem, hself, -⟩ := mem_fresh hu
        exact List.mem_append_right _ (List.mem_filter.mpr ⟨hmem, decide_eq_true hself⟩)
    rcases h.closest u hin with hid | ⟨hlen, hnear⟩
    · obtain ⟨v, hv, hid⟩ := List.mem_map.mp hid
      have hvc := ((mem_nearest (closer_iff target) hcdist).mp hv).1
      rwa [← List.inj_on_of_nodup_map hpool (hc.subset hvc) hu hid]
    · have hsub : nearest (RoutingTable.closer target) k c ⊆
          (closest ++ fresh selfId (ids closest) returned).filter fun v => dist target v < dist target u := by
        intro v hv
        have hvc := ((mem_nearest (closer_iff target) hcdist).mp hv).1
        exact List.mem_filter.mpr ⟨hc.subset hvc, decide_eq_true (hnear v hv)⟩
      have hcount := (List.subperm_of_subset (nodup_nearest hcdist) hsub).length_le
      rw [← List.countP_eq_length_filter, hlen] at hcount
      rw [rank] at hrank
      omega
  · intro h
    rw [h]
    refine ⟨sorted_iff.mpr (nearest_pairwise (closer_iff target) hdist), List.length_take_le _ _, ?_, ?_⟩
    · intro n hn
      have hmem := ((mem_nearest (closer_iff target) hdist).mp hn).1
      rcases List.mem_append.mp hmem with hmem | hmem
      · exact List.mem_append_left _ hmem
      · obtain ⟨hret, hself, -⟩ := mem_fresh hmem
        exact List.mem_append_right _ (List.mem_filter.mpr ⟨hret, decide_eq_true hself⟩)
    · intro n hn
      obtain ⟨u, hu, hid⟩ : ∃ u ∈ closest ++ fresh selfId (ids closest) returned, u.nodeId = n.nodeId := by
        rcases List.mem_append.mp hn with hn | hn
        · exact ⟨n, List.mem_append_left _ hn, rfl⟩
        · obtain ⟨hret, hself⟩ := List.mem_filter.mp hn
          rcases fresh_complete (ids closest) hret (of_decide_eq_true hself) with h | h
          · obtain ⟨u, hu, hid⟩ := List.mem_map.mp h
            exact ⟨u, List.mem_append_left _ hu, hid⟩
          · obtain ⟨u, hu, hid⟩ := List.mem_map.mp h
            exact ⟨u, List.mem_append_right _ hu, hid⟩
      have hdistn : dist target n = dist target u := by rw [dist, dist, hid]
      rw [hdistn, ← hid]
      exact (mem_nearest_or (closer_iff target) hdist hu).imp_left List.mem_map_of_mem

end

/-! ## A round -/

theorem round_keeps_closest_iff (target selfId : NodeId) (k : Nat) (hk : 1 ≤ k) (closest : List NodeInfo)
    (hsorted : closest.Pairwise (RoutingTable.closer target)) (hdistinct : (ids closest).Nodup)
    (hlen : closest.length ≤ k) (answers : List Answer) :
    ∃ merged improved,
      (returnedNodes answers).foldlM (mergeNode target selfId k) (closest, false) = .ok (merged, improved) ∧
      (KClosest target k (closest ++ (returnedNodes answers).filter fun n => n.nodeId ≠ selfId)
          ((merged.insertionSort (RoutingTable.closer target)).take k) ↔
        FarToNear target selfId k closest (returnedNodes answers)) := by
  obtain ⟨improved, hmerge⟩ := mergeAll_eq (returnedNodes answers) closest false (ids closest)
    (Or.inr hk) (fun _ h => h) (fun _ h => Or.inl h)
  refine ⟨_, improved, hmerge, ?_⟩
  refine (kClosest_iff hdistinct (accept_sublist _ _ _ _)).trans ?_
  exact accept_nearest_iff (closer_iff target) hk
    (sorted_iff.mp (sorted_of_closer target closest hsorted hdistinct)) hlen
    (nodup_dist _ (nodup_pool _ _ hdistinct))

/-- One answer that names two new peers, the farther one first. -/
def farToNearAnswers : List Answer := [some (idOf 4, .v4 127 0 0 1 4433, [peerOf 2, peerOf 1]), none]

theorem round_keeps_closest_iff_farToNear : ∃ merged improved,
    (returnedNodes farToNearAnswers).foldlM (mergeNode (idOf 0) (idOf 0xff) 2) ([peerOf 4, peerOf 5], false) =
      .ok (merged, improved) ∧
    KClosest (idOf 0) 2 ([peerOf 4, peerOf 5] ++ (returnedNodes farToNearAnswers).filter
      fun n => n.nodeId ≠ idOf 0xff) ((merged.insertionSort (RoutingTable.closer (idOf 0))).take 2) := by
  obtain ⟨merged, improved, hmerge, hiff⟩ := round_keeps_closest_iff (idOf 0) (idOf 0xff) 2 (by decide)
    [peerOf 4, peerOf 5] (by decide) (by decide) (by decide) farToNearAnswers
  exact ⟨merged, improved, hmerge, hiff.mpr (by decide +kernel)⟩

/-- The same answer with the nearer peer first. The shortlist is peers 4 and 5, and peer 2 is refused
because it is farther than peer 1. -/
theorem nearer_peer_is_refused : ∃ merged improved,
    (returnedNodes [some (idOf 4, .v4 127 0 0 1 4433, [peerOf 1, peerOf 2])]).foldlM
      (mergeNode (idOf 0) (idOf 0xff) 2) ([peerOf 4, peerOf 5], false) = .ok (merged, improved) ∧
    ¬KClosest (idOf 0) 2 ([peerOf 4, peerOf 5] ++
      (returnedNodes [some (idOf 4, .v4 127 0 0 1 4433, [peerOf 1, peerOf 2])]).filter
        fun n => n.nodeId ≠ idOf 0xff) ((merged.insertionSort (RoutingTable.closer (idOf 0))).take 2) := by
  refine ⟨[peerOf 4, peerOf 5, peerOf 1], true, rfl, fun h => ?_⟩
  have hlist : ([peerOf 4, peerOf 5, peerOf 1].insertionSort (RoutingTable.closer (idOf 0))).take 2 =
      [peerOf 1, peerOf 4] := by decide +kernel
  rw [hlist] at h
  rcases h.closest (peerOf 2) (by decide +kernel) with hid | ⟨-, hnear⟩
  · exact absurd hid (by decide +kernel)
  · exact absurd (hnear (peerOf 4) (by decide +kernel)) (by decide +kernel)

end TesserasDht.Lookup
