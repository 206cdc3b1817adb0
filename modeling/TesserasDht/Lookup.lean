import TesserasDht.Code.Lookup
import TesserasDht.Routing

/-! # Lookups against arbitrary peers -/

open TesserasDht.Routing

namespace TesserasDht.Lookup

/-! ## Sorting by distance -/

/-- The distance to `target` as a number. -/
def dist (target : NodeId) (n : NodeInfo) : Nat := (target.distance n.nodeId).value

theorem closer_iff (target : NodeId) (a b : NodeInfo) :
    RoutingTable.closer target a b ↔ dist target a ≤ dist target b := by
  rw [RoutingTable.closer, Distance.cmp_eq, Nat.isLE_compare]
  rfl

theorem cmp_lt_iff (target : NodeId) (a b : NodeInfo) :
    (target.distance a.nodeId).cmp (target.distance b.nodeId) = .lt ↔ dist target a < dist target b := by
  rw [Distance.cmp_eq, Nat.compare_eq_lt]
  rfl

instance (target : NodeId) : Std.Total (RoutingTable.closer target) :=
  ⟨fun a b => by rw [closer_iff, closer_iff]; omega⟩

instance (target : NodeId) : IsTrans NodeInfo (RoutingTable.closer target) :=
  ⟨fun a b c => by rw [closer_iff, closer_iff, closer_iff]; omega⟩

theorem nodup_dist (target : NodeId) {l : List NodeInfo} (h : (ids l).Nodup) :
    (l.map (dist target)).Nodup := by
  refine List.pairwise_map.mpr ((List.pairwise_map.mp h).imp fun hne he => hne ?_)
  exact NodeId.distance_inj target _ _ he

/-- Strictly increasing distance, which also means distinct ids. -/
def Sorted (target : NodeId) (l : List NodeInfo) : Prop :=
  l.Pairwise fun a b => (target.distance a.nodeId).cmp (target.distance b.nodeId) = .lt

theorem sorted_of_closer (target : NodeId) (l : List NodeInfo)
    (h : l.Pairwise (RoutingTable.closer target)) (hnd : (ids l).Nodup) : Sorted target l := by
  have hne : l.Pairwise fun a b => a.nodeId ≠ b.nodeId := List.pairwise_map.mp hnd
  refine (h.and hne).imp ?_
  rintro a b ⟨hle, hab⟩
  rw [closer_iff] at hle
  rw [cmp_lt_iff]
  refine lt_of_le_of_ne hle (fun he => hab ?_)
  exact NodeId.distance_inj target _ _ he

theorem sorted_insertionSort (target : NodeId) (l : List NodeInfo) (hnd : (ids l).Nodup) :
    Sorted target (l.insertionSort (RoutingTable.closer target)) := by
  apply sorted_of_closer
  · exact List.pairwise_insertionSort _ l
  · exact ((List.perm_insertionSort _ l).map _).nodup_iff.mpr hnd

theorem Sorted.nodup {target : NodeId} {l : List NodeInfo} (h : Sorted target l) : (ids l).Nodup := by
  refine List.pairwise_map.mpr (h.imp ?_)
  intro a b hab he
  rw [cmp_lt_iff, dist, dist, he] at hab
  omega

/-! ## One round -/

/-- What the merge of a round's answers keeps. -/
structure Merged (selfId : NodeId) (closest : List NodeInfo) : Prop where
  nonempty : closest ≠ []
  nodup : (ids closest).Nodup
  noSelf : selfId ∉ ids closest

variable {target selfId : NodeId} {k alpha : Nat}

theorem Merged.push {closest : List NodeInfo} (h : Merged selfId closest) (node : NodeInfo)
    (hself : node.nodeId ≠ selfId) (hnew : node.nodeId ∉ ids closest) :
    Merged selfId (closest ++ [node]) := by
  have hids : ids (closest ++ [node]) = ids closest ++ [node.nodeId] := by simp [ids]
  refine ⟨by simp, ?_, ?_⟩
  · rw [hids, List.nodup_append]
    refine ⟨h.nodup, by simp, ?_⟩
    rintro a ha b hb rfl
    exact hnew (List.mem_singleton.mp hb ▸ ha)
  · rw [hids, List.mem_append, List.mem_singleton]
    rintro (hmem | rfl)
    · exact h.noSelf hmem
    · exact hself rfl

theorem admits_ok (target : NodeId) (k : Nat) (closest : List NodeInfo) (node : NodeInfo) (h : closest ≠ []) :
    ∃ b, admits target k closest node = .ok b := by
  unfold admits
  split
  · exact ⟨true, rfl⟩
  · rw [List.getLast?_eq_getLast_of_ne_nil h]
    exact ⟨_, rfl⟩

theorem mergeNode_spec (target : NodeId) (k : Nat) (acc : List NodeInfo × Bool) (node : NodeInfo)
    (h : Merged selfId acc.1) :
    ∃ acc', mergeNode target selfId k acc node = .ok acc' ∧ Merged selfId acc'.1 := by
  unfold mergeNode
  split
  next => exact ⟨acc, rfl, h⟩
  next hself =>
    obtain ⟨b, hb⟩ := admits_ok target k acc.1 node h.nonempty
    rw [hb]
    by_cases hpush : (b && !acc.1.any fun c => c.nodeId = node.nodeId) = true
    · refine ⟨(acc.1 ++ [node], true), by simp only [bind, Except.bind, hpush, if_true]; rfl, ?_⟩
      rw [Bool.and_eq_true, Bool.not_eq_true', ← Bool.not_eq_true, any_iff_mem] at hpush
      exact h.push node hself hpush.2
    · exact ⟨acc, by simp only [bind, Except.bind, hpush]; rfl, h⟩

theorem mergeAll_spec (target : NodeId) (k : Nat) (nodes : List NodeInfo)
    (acc : List NodeInfo × Bool) (h : Merged selfId acc.1) :
    ∃ acc', nodes.foldlM (mergeNode target selfId k) acc = .ok acc' ∧ Merged selfId acc'.1 := by
  induction nodes generalizing acc with
  | nil => exact ⟨acc, rfl, h⟩
  | cons node nodes ih =>
    obtain ⟨acc', he, h'⟩ := mergeNode_spec target k acc node h
    obtain ⟨acc'', he', h''⟩ := ih acc' h'
    exact ⟨acc'', by rw [List.foldlM_cons, he]; exact he', h''⟩

/-! ## The invariant of the rounds -/

/-- The shortlist is well formed, and the queries so far are. -/
structure LookupInv (target selfId : NodeId) (k alpha : Nat) (s : LookupState) : Prop where
  sorted : Sorted target s.closest
  len : s.closest.length ≤ k
  noSelf : selfId ∉ ids s.closest
  selfQueried : selfId ∈ s.queried
  queried : ∀ q ∈ s.rounds.flatten, q.1 ∈ s.queried ∧ q.1 ≠ selfId ∧ q.2 ≠ []
  once : (s.rounds.flatten.map Prod.fst).Nodup
  perRound : ∀ qs ∈ s.rounds, qs.length ≤ alpha

theorem mem_toQuery {s : LookupState} {q : Query} (h : q ∈ toQuery alpha s) :
    q.1 ∈ ids s.closest ∧ q.1 ∉ s.queried ∧ q.2 ≠ [] := by
  obtain ⟨n, hn, rfl⟩ := List.mem_map.mp h
  obtain ⟨hmem, hcond⟩ := List.mem_filter.mp (List.mem_of_mem_take hn)
  simp only [decide_eq_true_eq] at hcond
  exact ⟨List.mem_map_of_mem hmem, hcond.1, hcond.2⟩

theorem toQuery_ids_sublist (s : LookupState) :
    ((toQuery alpha s).map Prod.fst).Sublist (ids s.closest) := by
  simp only [toQuery, List.map_map]
  exact ((List.take_sublist _ _).trans List.filter_sublist).map _

/-- The state after a round whose merge gave `closest`. -/
def nextState (target : NodeId) (k alpha : Nat) (s : LookupState) (closest : List NodeInfo) :
    LookupState :=
  { queried := s.queried ++ (toQuery alpha s).map Prod.fst
    closest := (closest.insertionSort (RoutingTable.closer target)).take k
    rounds := s.rounds ++ [toQuery alpha s] }

theorem nextState_inv {s : LookupState} (h : LookupInv target selfId k alpha s)
    {closest : List NodeInfo} (hm : Merged selfId closest) :
    LookupInv target selfId k alpha (nextState target k alpha s closest) := by
  have hflat : (s.rounds ++ [toQuery alpha s]).flatten = s.rounds.flatten ++ toQuery alpha s := by simp
  refine ⟨?_, List.length_take_le _ _, ?_, List.mem_append_left _ h.selfQueried, ?_, ?_, ?_⟩
  · exact (sorted_insertionSort target closest hm.nodup).sublist (List.take_sublist _ _)
  · intro hmem
    obtain ⟨n, hn, he⟩ := List.mem_map.mp hmem
    have hn := (List.mem_insertionSort _).mp (List.mem_of_mem_take hn)
    exact hm.noSelf (he ▸ List.mem_map_of_mem hn)
  · intro q hq
    simp only [nextState, hflat, List.mem_append] at hq ⊢
    rcases hq with hq | hq
    · exact ⟨Or.inl (h.queried q hq).1, (h.queried q hq).2⟩
    · obtain ⟨hmem, hfresh, haddr⟩ := mem_toQuery hq
      exact ⟨Or.inr (List.mem_map_of_mem hq), fun he => hfresh (he ▸ h.selfQueried), haddr⟩
  · simp only [nextState, hflat, List.map_append, List.nodup_append]
    refine ⟨h.once, h.sorted.nodup.sublist (toQuery_ids_sublist s), ?_⟩
    rintro a ha b hb rfl
    obtain ⟨q, hq, rfl⟩ := List.mem_map.mp ha
    obtain ⟨q', hq', he⟩ := List.mem_map.mp hb
    exact (mem_toQuery hq').2.1 (he ▸ (h.queried q hq).1)
  · intro qs hqs
    rcases List.mem_append.mp hqs with hqs | hqs
    · exact h.perRound qs hqs
    · rw [List.mem_singleton.mp hqs]
      simp [toQuery]

/-- By induction on the rounds left: the loop returns, and adds at most that many rounds. -/
theorem lookupFrom_spec (send : Nat → NodeId → List SocketAddr → Answer) (n r : Nat)
    (s : LookupState) (h : LookupInv target selfId k alpha s) :
    ∃ s', lookupFrom target selfId k alpha send n r s = .ok s' ∧
      LookupInv target selfId k alpha s' ∧ s'.rounds.length ≤ s.rounds.length + n := by
  induction n generalizing r s with
  | zero => exact ⟨s, rfl, h, by omega⟩
  | succ n ih =>
    rw [lookupFrom]
    split
    next => exact ⟨s, rfl, h, by omega⟩
    next hq =>
      -- A query comes from the shortlist, so the merge starts from a list that is not empty.
      have hne : s.closest ≠ [] := by
        rintro he
        exact hq (by simp [toQuery, he])
      obtain ⟨⟨closest, improved⟩, he, hm⟩ := mergeAll_spec target k
        (returnedNodes ((toQuery alpha s).map fun q => send r q.1 q.2)) (s.closest, false)
        ⟨hne, h.sorted.nodup, h.noSelf⟩
      have hnext := nextState_inv h hm
      have hlen : (nextState target k alpha s closest).rounds.length = s.rounds.length + 1 := by
        simp [nextState]
      simp only [he]
      cases improved with
      | false => exact ⟨nextState target k alpha s closest, rfl, hnext, by omega⟩
      | true =>
        obtain ⟨s', hs', hinv, hle⟩ := ih (r + 1) (nextState target k alpha s closest) hnext
        exact ⟨s', hs', hinv, by omega⟩

theorem flatten_length_le {α : Type} (ls : List (List α)) (n : Nat) (h : ∀ l ∈ ls, l.length ≤ n) :
    ls.flatten.length ≤ ls.length * n := by
  induction ls with
  | nil => simp
  | cons l ls ih =>
    have := ih (fun m hm => h m (List.mem_cons_of_mem _ hm))
    have := h l List.mem_cons_self
    simp only [List.flatten_cons, List.length_append, List.length_cons, Nat.add_mul]
    omega

theorem lookup_wellFormed (target selfId : NodeId) (k alpha : Nat) (seedNodes : List NodeInfo)
    (hsorted : seedNodes.Pairwise (RoutingTable.closer target)) (hlen : seedNodes.length ≤ k)
    (hdistinct : (ids seedNodes).Nodup) (hself : selfId ∉ ids seedNodes)
    (send : Nat → NodeId → List SocketAddr → Answer) :
    ∃ s, lookup target selfId seedNodes k alpha send = .ok s ∧
      iterativeFindNode target selfId seedNodes k alpha send = .ok s.closest ∧
      (Sorted target s.closest ∧ s.closest.length ≤ k ∧ selfId ∉ ids s.closest) ∧
      (s.rounds.flatten.map Prod.fst).Nodup ∧
      (∀ q ∈ s.rounds.flatten, q.1 ≠ selfId ∧ q.2 ≠ []) ∧
      (∀ qs ∈ s.rounds, qs.length ≤ alpha) ∧
      s.rounds.flatten.length ≤ 10 * alpha := by
  have hstart : LookupInv target selfId k alpha ⟨[selfId], seedNodes, []⟩ :=
    ⟨sorted_of_closer target seedNodes hsorted hdistinct, hlen, hself, by simp, by simp, by simp,
      by simp⟩
  obtain ⟨s, hs, h, hrounds⟩ := lookupFrom_spec send maxRounds 0 _ hstart
  have hs : lookup target selfId seedNodes k alpha send = .ok s := hs
  refine ⟨s, hs, by rw [iterativeFindNode, hs]; rfl, ⟨h.sorted, h.len, h.noSelf⟩, h.once,
    fun q hq => (h.queried q hq).2, h.perRound, ?_⟩
  calc s.rounds.flatten.length ≤ s.rounds.length * alpha := flatten_length_le _ _ h.perRound
    _ ≤ 10 * alpha := Nat.mul_le_mul_right _ (by simpa [maxRounds] using hrounds)

/-- Every peer answers with the asking node, a known peer, a peer with no address and a new one. -/
def hostileAnswer : Nat → NodeId → List SocketAddr → Answer := fun r id _ =>
  some (id, .v4 127 0 0 1 4433, [peerOf 0xff, peerOf 1, { peerOf 3 with addresses := [] },
    peerOf (UInt8.ofNat (r + 4))])

theorem lookup_wellFormed_hostile :
    ∃ s, lookup (idOf 0) (idOf 0xff) [peerOf 1, peerOf 2] 4 2 hostileAnswer = .ok s ∧
      Sorted (idOf 0) s.closest ∧ s.closest.length ≤ 4 ∧ idOf 0xff ∉ ids s.closest ∧
      (s.rounds.flatten.map Prod.fst).Nodup := by
  obtain ⟨s, hs, -, ⟨hsorted, hlen, hself⟩, honce, -⟩ :=
    lookup_wellFormed (idOf 0) (idOf 0xff) 4 2 [peerOf 1, peerOf 2] (by decide) (by decide)
      (by decide) (by decide) hostileAnswer
  exact ⟨s, hs, hsorted, hlen, hself, honce⟩

end TesserasDht.Lookup
