import TesserasDht.LookupRounds

/-!
# Where a lookup ends

From round to round the shortlist only gets nearer. The rounds end when one of them pushes no node, and
that round asks no more than `alpha` peers.
-/

open Lib.Nearest TesserasDht.Routing

namespace TesserasDht.Lookup

section

variable (target selfId : NodeId) (k alpha : Nat) (send : Nat → NodeId → List SocketAddr → Answer)

/-- The nodes that the answers of a round name. -/
def returned (r : Nat) (s : LookupState) : List NodeInfo :=
  returnedNodes ((toQuery alpha s).map fun q => send r q.1 q.2)

/-- One of the nodes is pushed. -/
def BringsNew (closest nodes : List NodeInfo) : Prop :=
  ∃ n ∈ nodes, n.nodeId ≠ selfId ∧ n.nodeId ∉ ids closest ∧ Admits (dist target) k closest n

instance (closest nodes : List NodeInfo) : Decidable (BringsNew target selfId k closest nodes) := by
  unfold BringsNew; infer_instance

/-- The shortlist of a round before it is sorted and cut. -/
def merged (r : Nat) (s : LookupState) : List NodeInfo :=
  accept (dist target) k s.closest (fresh selfId (ids s.closest) (returned alpha send r s))

def next (r : Nat) (s : LookupState) : LookupState :=
  nextState target k alpha s (merged target selfId k alpha send r s)

/-- The entries with an address that are not asked yet. -/
def pending (s : LookupState) : List NodeInfo :=
  s.closest.filter fun n => n.nodeId ∉ s.queried ∧ n.addresses ≠ []

/-- After the first `alpha` of them there is another peer that would stay in the shortlist. -/
def LeavesOut (s : LookupState) : Prop :=
  ∃ n ∈ (pending s).drop alpha, n ∈ nearest (RoutingTable.closer target) k s.closest ∧
    n.nodeId ∉ ids ((pending s).take alpha)

/-- Before the last round there is one that brings no new node and leaves out a peer. -/
def StopsShort : Nat → Nat → LookupState → Prop
  | 0, _, _ => False
  | n + 1, r, s =>
    toQuery alpha s ≠ [] ∧
      if BringsNew target selfId k s.closest (returned alpha send r s) then
        StopsShort n (r + 1) (next target selfId k alpha send r s)
      else n ≠ 0 ∧ LeavesOut target k alpha s

instance (s : LookupState) : Decidable (LeavesOut target k alpha s) := by
  unfold LeavesOut; infer_instance

instance decidableStopsShort : ∀ n r s, Decidable (StopsShort target selfId k alpha send n r s)
  | 0, _, _ => inferInstanceAs (Decidable False)
  | n + 1, r, s =>
    have := decidableStopsShort n (r + 1) (next target selfId k alpha send r s)
    inferInstanceAs (Decidable (toQuery alpha s ≠ [] ∧
      if BringsNew target selfId k s.closest (returned alpha send r s) then
        StopsShort target selfId k alpha send n (r + 1) (next target selfId k alpha send r s)
      else n ≠ 0 ∧ LeavesOut target k alpha s))

/-- The shortlists of the rounds before they are sorted and cut: the seeds and the pushed nodes. -/
def accepted : Nat → Nat → LookupState → List NodeInfo
  | 0, _, _ => []
  | n + 1, r, s =>
    if toQuery alpha s = [] then []
    else
      match (returned alpha send r s).foldlM (mergeNode target selfId k) (s.closest, false) with
      | .ok (closest, improved) =>
        closest ++ if improved then accepted n (r + 1) (nextState target k alpha s closest) else []
      | .error _ => []

end

/-! ## One round -/

section

variable (target selfId : NodeId) (k alpha : Nat) (send : Nat → NodeId → List SocketAddr → Answer)

theorem mergeNode_eq {c : List NodeInfo} (improved : Bool) (node : NodeInfo) (hc : c ≠ []) :
    mergeNode target selfId k (c, improved) node =
      .ok (if node.nodeId ≠ selfId ∧ node.nodeId ∉ ids c ∧ Admits (dist target) k c node then
        (c ++ [node], true) else (c, improved)) := by
  unfold mergeNode
  by_cases hself : node.nodeId = selfId
  · rw [if_pos hself, if_neg fun h => h.1 hself]
  · have hcond : (decide (Admits (dist target) k c node) && !c.any fun m => m.nodeId = node.nodeId) = true ↔
        node.nodeId ≠ selfId ∧ node.nodeId ∉ ids c ∧ Admits (dist target) k c node := by
      rw [Bool.and_eq_true, decide_eq_true_iff, Bool.not_eq_true', ← Bool.not_eq_true, any_iff_mem]
      tauto
    rw [if_neg hself, admits_eq node (Or.inl hc)]
    simp only [bind, Except.bind, pure, Except.pure]
    by_cases hpush : node.nodeId ≠ selfId ∧ node.nodeId ∉ ids c ∧ Admits (dist target) k c node
    · rw [if_pos (hcond.mpr hpush), if_pos hpush]
    · rw [if_neg (mt hcond.mp hpush), if_neg hpush]

/-- By induction on the nodes: the first one that is pushed decides. -/
theorem mergeAll_improved (nodes c : List NodeInfo) (improved : Bool) (hc : c ≠ []) :
    ∃ c', nodes.foldlM (mergeNode target selfId k) (c, improved) =
        .ok (c', improved || decide (BringsNew target selfId k c nodes)) ∧
      (¬BringsNew target selfId k c nodes → c' = c) := by
  induction nodes generalizing c improved with
  | nil => exact ⟨c, by simp [BringsNew, pure, Except.pure], fun _ => rfl⟩
  | cons node rest ih =>
    rw [List.foldlM_cons, mergeNode_eq target selfId k improved node hc]
    by_cases hpush : node.nodeId ≠ selfId ∧ node.nodeId ∉ ids c ∧ Admits (dist target) k c node
    · have hnew : BringsNew target selfId k c (node :: rest) := ⟨node, List.mem_cons_self, hpush⟩
      obtain ⟨c', he, -⟩ := ih (c ++ [node]) true (by simp)
      refine ⟨c', ?_, fun h => absurd hnew h⟩
      rw [if_pos hpush, decide_eq_true hnew, Bool.or_true, ← Bool.true_or]
      exact he
    · have hiff : BringsNew target selfId k c (node :: rest) ↔ BringsNew target selfId k c rest := by
        simp only [BringsNew, List.exists_mem_cons_iff]
        exact or_iff_right hpush
      obtain ⟨c', he, hsame⟩ := ih c improved hc
      rw [if_neg hpush, decide_eq_decide.mpr hiff, hiff]
      exact ⟨c', he, hsame⟩

theorem closest_ne_nil {alpha : Nat} {s : LookupState} (h : toQuery alpha s ≠ []) : s.closest ≠ [] := by
  intro he
  exact h (by simp [toQuery, he])

theorem merge_round {s : LookupState} (r : Nat) (h : toQuery alpha s ≠ []) :
    (returned alpha send r s).foldlM (mergeNode target selfId k) (s.closest, false) =
        .ok (merged target selfId k alpha send r s,
          decide (BringsNew target selfId k s.closest (returned alpha send r s))) ∧
      (¬BringsNew target selfId k s.closest (returned alpha send r s) →
        merged target selfId k alpha send r s = s.closest) := by
  have hc := closest_ne_nil h
  obtain ⟨improved, hall⟩ : ∃ improved, (returned alpha send r s).foldlM (mergeNode target selfId k)
      (s.closest, false) = .ok (merged target selfId k alpha send r s, improved) :=
    mergeAll_eq _ s.closest false (ids s.closest) (Or.inl hc) (fun _ h => h) (fun _ h => Or.inl h)
  obtain ⟨c', he, hsame⟩ := mergeAll_improved target selfId k (returned alpha send r s) s.closest false hc
  rw [hall, Bool.false_or, Except.ok.injEq, Prod.mk.injEq] at he
  obtain ⟨rfl, rfl⟩ := he
  exact ⟨hall, hsame⟩

theorem lookupFrom_succ (n r : Nat) (s : LookupState) :
    lookupFrom target selfId k alpha send (n + 1) r s =
      if toQuery alpha s = [] then .ok s
      else if BringsNew target selfId k s.closest (returned alpha send r s) then
        lookupFrom target selfId k alpha send n (r + 1) (next target selfId k alpha send r s)
      else .ok (next target selfId k alpha send r s) := by
  rw [lookupFrom]
  by_cases hq : toQuery alpha s = []
  · rw [if_pos hq, if_pos hq]
  · have hround := (merge_round target selfId k alpha send r hq).1
    rw [returned] at hround ⊢
    simp only [if_neg hq, hround, bind, Except.bind, decide_eq_true_eq]
    rfl

end

/-! ## Peers that are never asked -/

section

variable (target selfId : NodeId) (k alpha : Nat) (send : Nat → NodeId → List SocketAddr → Answer)

theorem next_queried {s : LookupState} (r : Nat) (h : s.queried = selfId :: s.rounds.flatten.map Prod.fst) :
    (next target selfId k alpha send r s).queried =
      selfId :: (next target selfId k alpha send r s).rounds.flatten.map Prod.fst := by
  simp [next, nextState, h]

theorem pending_nil {alpha : Nat} {s : LookupState} (halpha : 1 ≤ alpha) (h : toQuery alpha s = []) :
    pending s = [] := by
  have htake : (pending s).take alpha = [] := List.map_eq_nil_iff.mp h
  exact (List.take_eq_nil_iff.mp htake).resolve_left (by omega)

theorem queried_next {s : LookupState} (r : Nat) {n : NodeInfo} :
    n.nodeId ∈ (next target selfId k alpha send r s).queried ↔
      n.nodeId ∈ s.queried ∨ n.nodeId ∈ ids ((pending s).take alpha) := by
  have hasked : (toQuery alpha s).map Prod.fst = ids ((pending s).take alpha) := by
    rw [toQuery, List.map_map]
    rfl
  rw [next, nextState, hasked, List.mem_append]

/-- A round that pushes nothing and the peers it leaves out. -/
theorem leavesOut_iff {s : LookupState} (r : Nat) (h : merged target selfId k alpha send r s = s.closest) :
    LeavesOut target k alpha s ↔
      ∃ n ∈ (next target selfId k alpha send r s).closest, n.addresses ≠ [] ∧
        n.nodeId ∉ (next target selfId k alpha send r s).queried := by
  have hclosest : (next target selfId k alpha send r s).closest =
      nearest (RoutingTable.closer target) k s.closest := by
    rw [next, h]
    rfl
  rw [hclosest]
  constructor
  · rintro ⟨n, hn, hnear, hout⟩
    have hpending := List.mem_of_mem_drop hn
    obtain ⟨-, hfree, haddr⟩ := by simpa [pending] using hpending
    exact ⟨n, hnear, haddr, fun hq => ((queried_next ..).mp hq).elim hfree hout⟩
  · rintro ⟨n, hnear, haddr, hout⟩
    rw [queried_next, not_or] at hout
    have hmem : n ∈ s.closest := (List.mem_insertionSort _).mp (List.mem_of_mem_take hnear)
    have hpending : n ∈ pending s := List.mem_filter.mpr ⟨hmem, decide_eq_true ⟨hout.1, haddr⟩⟩
    rw [← List.take_append_drop alpha (pending s), List.mem_append] at hpending
    exact ⟨n, hpending.resolve_left fun ht => hout.2 (List.mem_map_of_mem ht), hnear, hout.2⟩

theorem lookupFrom_stopsShort_iff (halpha : 1 ≤ alpha) (n r : Nat) (s : LookupState)
    (hrounds : s.rounds.length + n = maxRounds)
    (hqueried : s.queried = selfId :: s.rounds.flatten.map Prod.fst) :
    ∃ s', lookupFrom target selfId k alpha send n r s = .ok s' ∧
      s'.queried = selfId :: s'.rounds.flatten.map Prod.fst ∧
      ((s'.rounds.length < maxRounds → ∀ m ∈ s'.closest, m.addresses ≠ [] → m.nodeId ∈ s'.queried) ↔
        ¬StopsShort target selfId k alpha send n r s) := by
  induction n generalizing r s with
  | zero => exact ⟨s, rfl, hqueried, iff_of_true (fun hlt => absurd hlt (by omega)) id⟩
  | succ n ih =>
    have hlen : (next target selfId k alpha send r s).rounds.length = s.rounds.length + 1 := by
      simp [next, nextState]
    have hnext := next_queried target selfId k alpha send r hqueried
    rw [lookupFrom_succ, StopsShort]
    by_cases hq : toQuery alpha s = []
    · rw [if_pos hq]
      refine ⟨s, rfl, hqueried, iff_of_true (fun _ m hm haddr => ?_) fun h => h.1 hq⟩
      have hnone := List.filter_eq_nil_iff.mp (pending_nil halpha hq) m hm
      simp only [decide_eq_true_eq, not_and, not_not] at hnone
      by_contra hfree
      exact haddr (hnone hfree)
    · rw [if_neg hq]
      by_cases hnew : BringsNew target selfId k s.closest (returned alpha send r s)
      · simp only [if_pos hnew, ne_eq, hq, not_false_eq_true, true_and]
        exact ih (r + 1) _ (by omega) hnext
      · simp only [if_neg hnew, ne_eq, hq, not_false_eq_true, true_and]
        refine ⟨_, rfl, hnext, ?_⟩
        rw [leavesOut_iff target selfId k alpha send r ((merge_round target selfId k alpha send r hq).2 hnew)]
        rw [hlen]
        constructor
        · rintro h ⟨hn, m, hm, haddr, hout⟩
          exact hout (h (by omega) m hm haddr)
        · intro h hlt m hm haddr
          by_contra hout
          exact h ⟨by omega, m, hm, haddr, hout⟩

theorem lookup_converged_iff (seedNodes : List NodeInfo) (halpha : 1 ≤ alpha) :
    ∃ s, lookup target selfId seedNodes k alpha send = .ok s ∧
      iterativeFindNode target selfId seedNodes k alpha send = .ok s.closest ∧
      ((s.rounds.length < maxRounds → ∀ n ∈ s.closest, n.addresses ≠ [] →
          n.nodeId = selfId ∨ n.nodeId ∈ s.rounds.flatten.map Prod.fst) ↔
        ¬StopsShort target selfId k alpha send maxRounds 0 ⟨[selfId], seedNodes, []⟩) := by
  obtain ⟨s, hs, hqueried, hiff⟩ := lookupFrom_stopsShort_iff target selfId k alpha send halpha maxRounds 0
    ⟨[selfId], seedNodes, []⟩ (by simp) (by simp)
  have hs : lookup target selfId seedNodes k alpha send = .ok s := hs
  refine ⟨s, hs, by rw [iterativeFindNode, hs]; rfl, ?_⟩
  simpa only [hqueried, List.mem_cons] using hiff

end

/-- Only peer 4 is there to answer. -/
def lastAnswers : Nat → NodeId → List SocketAddr → Answer := fun _ id _ =>
  if id = idOf 4 then some (id, .v4 127 0 0 1 4433, [peerOf 5]) else none

theorem lookup_converged_iff_wide :
    ∃ s, lookup (idOf 0) (idOf 0xff) [peerOf 1, peerOf 2, peerOf 3, peerOf 4] 20 4 lastAnswers = .ok s ∧
      (s.rounds.length < maxRounds → ∀ n ∈ s.closest, n.addresses ≠ [] →
        n.nodeId = idOf 0xff ∨ n.nodeId ∈ s.rounds.flatten.map Prod.fst) := by
  obtain ⟨s, hs, -, hiff⟩ := lookup_converged_iff (idOf 0) (idOf 0xff) 20 4 lastAnswers
    [peerOf 1, peerOf 2, peerOf 3, peerOf 4] (by decide)
  exact ⟨s, hs, hiff.mpr (by decide +kernel)⟩

/-- The three nearest peers are dead, and the fourth is never asked. -/
theorem lookup_stops_short :
    ∃ s, lookup (idOf 0) (idOf 0xff) [peerOf 1, peerOf 2, peerOf 3, peerOf 4] 20 3 lastAnswers = .ok s ∧
      s.rounds.length < maxRounds ∧
      ∃ n ∈ s.closest, n.addresses ≠ [] ∧ n.nodeId ≠ idOf 0xff ∧ n.nodeId ∉ s.rounds.flatten.map Prod.fst :=
  ⟨⟨_, _, [[1, 2, 3].map fun i => ((peerOf i).nodeId, (peerOf i).addresses)]⟩, by rfl, by decide, peerOf 4, by decide +kernel, by decide, by decide, by decide⟩

/-! ## Shortlists that only get nearer -/

/-- A shortlist in order, of the allowed length. -/
structure Listed (target : NodeId) (k : Nat) (l : List NodeInfo) : Prop where
  sorted : Sorted target l
  len : l.length ≤ k

/-- At every rank the second list is at least as near. -/
structure NoFarther (target : NodeId) (l l' : List NodeInfo) : Prop where
  length_le : l.length ≤ l'.length
  dist_le : ∀ i : Nat, ∀ n ∈ l[i]?, ∃ n' ∈ l'[i]?, dist target n' ≤ dist target n

/-- The peer is in the shortlist, or there are `k` strictly closer ones in it. -/
def Covered (target : NodeId) (k : Nat) (l : List NodeInfo) (n : NodeInfo) : Prop :=
  n.nodeId ∈ ids l ∨ l.length = k ∧ ∀ m ∈ l, dist target m < dist target n

section

variable {target : NodeId} {k alpha : Nat} {l l' : List NodeInfo}

theorem NoFarther.refl (target : NodeId) (l : List NodeInfo) : NoFarther target l l :=
  ⟨le_refl _, fun _ n hn => ⟨n, hn, le_refl _⟩⟩

theorem NoFarther.trans {l'' : List NodeInfo} (h : NoFarther target l l') (h' : NoFarther target l' l'') :
    NoFarther target l l'' := by
  refine ⟨le_trans h.length_le h'.length_le, fun i n hn => ?_⟩
  obtain ⟨n', hn', hle⟩ := h.dist_le i n hn
  obtain ⟨n'', hn'', hle'⟩ := h'.dist_le i n' hn'
  exact ⟨n'', hn'', le_trans hle' hle⟩

theorem Listed.nearest_noFarther (h : Listed target k l) (hsub : l.Sublist l') (hnd : (ids l').Nodup) :
    NoFarther target l (nearest (RoutingTable.closer target) k l') := by
  refine ⟨?_, fun i n hn => ?_⟩
  · rw [length_nearest]
    exact le_min h.len hsub.length_le
  · exact nearest_getElem?_le (closer_iff target) (nodup_dist target hnd) (sorted_iff.mp h.sorted) h.len
      hsub.subperm hn

theorem listed_nearest (k : Nat) (hnd : (ids l).Nodup) :
    Listed target k (nearest (RoutingTable.closer target) k l) :=
  ⟨(sorted_insertionSort target l hnd).sublist (List.take_sublist _ _), List.length_take_le _ _⟩

theorem covered_nearest {n m : NodeInfo} (hnd : (ids l).Nodup) (hm : m ∈ l) (hid : m.nodeId = n.nodeId) :
    Covered target k (nearest (RoutingTable.closer target) k l) n := by
  have hdist : dist target n = dist target m := by rw [dist, dist, hid]
  rw [Covered, hdist, ← hid]
  exact (mem_nearest_or (closer_iff target) (nodup_dist target hnd) hm).imp_left List.mem_map_of_mem

theorem NoFarther.covered (h : NoFarther target l l') (hlen : l'.length ≤ k) {n : NodeInfo}
    (hfull : l.length = k) (hcloser : ∀ m ∈ l, dist target m < dist target n) : Covered target k l' n := by
  have := h.length_le
  refine Or.inr ⟨by omega, fun m hm => ?_⟩
  obtain ⟨i, hi, rfl⟩ := List.mem_iff_getElem.mp hm
  obtain ⟨m', hm', hle⟩ := h.dist_le i l[i] (List.getElem?_eq_getElem (by omega))
  rw [Option.mem_def, List.getElem?_eq_getElem hi, Option.some.injEq] at hm'
  rw [hm']
  exact lt_of_le_of_lt hle (hcloser _ (List.getElem_mem _))

theorem Listed.leavesOut_iff {s : LookupState} (h : Listed target k s.closest) :
    LeavesOut target k alpha s ↔ alpha < (pending s).length := by
  have hnd : (ids (pending s)).Nodup := h.sorted.nodup.sublist (List.filter_sublist.map _)
  rw [← List.take_append_drop alpha (pending s), ids, List.map_append, List.nodup_append] at hnd
  constructor
  · rintro ⟨n, hn, -⟩
    have := List.length_pos_of_mem hn
    rw [List.length_drop] at this
    omega
  · intro hlt
    obtain ⟨n, hn⟩ := List.exists_mem_of_length_pos (l := (pending s).drop alpha) (by rw [List.length_drop]; omega)
    have hmem : n ∈ s.closest := List.mem_of_mem_filter (List.mem_of_mem_drop hn)
    have hall : nearest (RoutingTable.closer target) k s.closest = s.closest := by
      rw [nearest, List.take_of_length_le (by rw [List.length_insertionSort]; exact h.len)]
      exact List.Pairwise.insertionSort_eq (h.sorted.imp fun hab => by rw [RoutingTable.closer, hab]; rfl)
    refine ⟨n, hn, by rw [hall]; exact hmem, fun hin => ?_⟩
    exact hnd.2.2 _ hin _ (List.mem_map_of_mem hn) rfl

end

section

variable (target selfId : NodeId) (k alpha : Nat) (send : Nat → NodeId → List SocketAddr → Answer)

theorem nodup_merged {s : LookupState} (r : Nat) (h : Listed target k s.closest) :
    (ids (merged target selfId k alpha send r s)).Nodup :=
  (nodup_pool selfId _ h.sorted.nodup).sublist ((accept_sublist _ _ _ _).map _)

theorem closest_sublist_merged (r : Nat) (s : LookupState) :
    s.closest.Sublist (merged target selfId k alpha send r s) := by
  obtain ⟨pushed, -, he⟩ := accept_eq (dist target) k s.closest
    (fresh selfId (ids s.closest) (returned alpha send r s))
  rw [merged, he]
  exact List.sublist_append_left _ _

theorem next_listed {s : LookupState} (r : Nat) (h : Listed target k s.closest) :
    Listed target k (next target selfId k alpha send r s).closest :=
  listed_nearest k (nodup_merged target selfId k alpha send r h)

theorem next_noFarther {s : LookupState} (r : Nat) (h : Listed target k s.closest) :
    NoFarther target s.closest (next target selfId k alpha send r s).closest :=
  h.nearest_noFarther (closest_sublist_merged ..) (nodup_merged target selfId k alpha send r h)

/-- By induction on the rounds: one more round leaves the shortlist no farther. -/
theorem lookupFrom_noFarther (n r : Nat) (s : LookupState) (h : Listed target k s.closest) :
    ∃ s' s'', lookupFrom target selfId k alpha send n r s = .ok s' ∧
      lookupFrom target selfId k alpha send (n + 1) r s = .ok s'' ∧
      Listed target k s'.closest ∧ NoFarther target s'.closest s''.closest := by
  induction n generalizing r s with
  | zero =>
    rw [lookupFrom_succ]
    split
    · exact ⟨s, s, rfl, rfl, h, NoFarther.refl ..⟩
    · refine ⟨s, _, rfl, ?_, h, next_noFarther target selfId k alpha send r h⟩
      split <;> rfl
  | succ n ih =>
    rw [lookupFrom_succ target selfId k alpha send n, lookupFrom_succ target selfId k alpha send (n + 1)]
    split
    · exact ⟨s, s, rfl, rfl, h, NoFarther.refl ..⟩
    · split
      · exact ih (r + 1) _ (next_listed target selfId k alpha send r h)
      · exact ⟨_, _, rfl, rfl, next_listed target selfId k alpha send r h, NoFarther.refl ..⟩

theorem covered_next {s : LookupState} (r : Nat) (h : Listed target k s.closest) {n : NodeInfo}
    (hn : Covered target k s.closest n) : Covered target k (next target selfId k alpha send r s).closest n := by
  rcases hn with hid | ⟨hfull, hcloser⟩
  · obtain ⟨m, hm, hid⟩ := List.mem_map.mp hid
    exact covered_nearest (nodup_merged target selfId k alpha send r h)
      ((closest_sublist_merged ..).subset hm) hid
  · exact (next_noFarther target selfId k alpha send r h).covered
      (next_listed target selfId k alpha send r h).len hfull hcloser

theorem lookupFrom_covered (n r : Nat) (s : LookupState) (h : Listed target k s.closest) {s' : LookupState}
    (hs' : lookupFrom target selfId k alpha send n r s = .ok s') {m : NodeInfo}
    (hm : Covered target k s.closest m) : Covered target k s'.closest m := by
  induction n generalizing r s with
  | zero =>
    rw [lookupFrom, Except.ok.injEq] at hs'
    exact hs' ▸ hm
  | succ n ih =>
    rw [lookupFrom_succ] at hs'
    have hnext := covered_next target selfId k alpha send r h hm
    split at hs'
    · exact Except.ok.inj hs' ▸ hm
    · split at hs'
      · exact ih (r + 1) _ (next_listed target selfId k alpha send r h) hs' hnext
      · exact Except.ok.inj hs' ▸ hnext

/-- Every node that a round pushed is in the result, unless `k` nodes there are strictly closer. -/
theorem accepted_covered (n r : Nat) (s : LookupState) (h : Listed target k s.closest) {s' : LookupState}
    (hs' : lookupFrom target selfId k alpha send n r s = .ok s') {m : NodeInfo}
    (hm : m ∈ accepted target selfId k alpha send n r s) : Covered target k s'.closest m := by
  induction n generalizing r s with
  | zero => cases hm
  | succ n ih =>
    rw [lookupFrom_succ] at hs'
    by_cases hq : toQuery alpha s = []
    · simp [accepted, hq] at hm
    · have hlisted := next_listed target selfId k alpha send r h
      rw [accepted, if_neg hq, (merge_round target selfId k alpha send r hq).1] at hm
      rw [if_neg hq] at hs'
      rcases List.mem_append.mp hm with hm | hm
      · have hnext : Covered target k (next target selfId k alpha send r s).closest m :=
          covered_nearest (nodup_merged target selfId k alpha send r h) hm rfl
        split at hs'
        · exact lookupFrom_covered target selfId k alpha send n (r + 1) _ hlisted hs' hnext
        · exact Except.ok.inj hs' ▸ hnext
      · split at hs'
        next hnew =>
          rw [decide_eq_true hnew, if_pos rfl] at hm
          exact ih (r + 1) _ hlisted hs' hm
        next hnew =>
          rw [decide_eq_false hnew] at hm
          cases hm

theorem lookup_never_degrades (seedNodes : List NodeInfo)
    (hsorted : seedNodes.Pairwise (RoutingTable.closer target)) (hlen : seedNodes.length ≤ k)
    (hdistinct : (ids seedNodes).Nodup) :
    (∀ n, ∃ s s', lookupFrom target selfId k alpha send n 0 ⟨[selfId], seedNodes, []⟩ = .ok s ∧
      lookupFrom target selfId k alpha send (n + 1) 0 ⟨[selfId], seedNodes, []⟩ = .ok s' ∧
      Sorted target s.closest ∧ s.closest.length ≤ s'.closest.length ∧
      ∀ i : Nat, ∀ u ∈ s.closest[i]?, ∃ u' ∈ s'.closest[i]?, dist target u' ≤ dist target u) ∧
    ∃ closest, iterativeFindNode target selfId seedNodes k alpha send = .ok closest ∧
      ∀ u ∈ seedNodes ++ accepted target selfId k alpha send maxRounds 0 ⟨[selfId], seedNodes, []⟩,
        u.nodeId ∈ ids closest ∨ closest.length = k ∧ ∀ m ∈ closest, dist target m < dist target u := by
  have hstart : Listed target k seedNodes := ⟨sorted_of_closer target seedNodes hsorted hdistinct, hlen⟩
  constructor
  · intro n
    obtain ⟨s, s', hs, hs', hlisted, hno⟩ :=
      lookupFrom_noFarther target selfId k alpha send n 0 ⟨[selfId], seedNodes, []⟩ hstart
    exact ⟨s, s', hs, hs', hlisted.sorted, hno.length_le, hno.dist_le⟩
  · obtain ⟨s, -, hs, -⟩ :=
      lookupFrom_noFarther target selfId k alpha send maxRounds 0 ⟨[selfId], seedNodes, []⟩ hstart
    have hlookup : lookup target selfId seedNodes k alpha send = .ok s := hs
    refine ⟨s.closest, by rw [iterativeFindNode, hlookup]; rfl, fun u hu => ?_⟩
    rcases List.mem_append.mp hu with hu | hu
    · exact lookupFrom_covered target selfId k alpha send _ _ _ hstart hs (Or.inl (List.mem_map_of_mem hu))
    · exact accepted_covered target selfId k alpha send _ _ _ hstart hs hu

end

theorem lookup_never_degrades_hostile :
    ∃ closest, iterativeFindNode (idOf 0) (idOf 0xff) [peerOf 1, peerOf 2] 4 2 hostileAnswer = .ok closest ∧
      ∀ u ∈ [peerOf 1, peerOf 2] ++
          accepted (idOf 0) (idOf 0xff) 4 2 hostileAnswer maxRounds 0 ⟨[idOf 0xff], [peerOf 1, peerOf 2], []⟩,
        u.nodeId ∈ ids closest ∨ closest.length = 4 ∧ ∀ m ∈ closest, dist (idOf 0) m < dist (idOf 0) u :=
  (lookup_never_degrades (idOf 0) (idOf 0xff) 4 2 hostileAnswer [peerOf 1, peerOf 2] (by decide) (by decide)
    (by decide)).2

end TesserasDht.Lookup
