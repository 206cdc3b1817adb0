import TesserasDht.Convergence
import TesserasDht.ExactLookups

/-!
# What a lookup finds in a network

The peers answer from tables that know somebody in every range with nodes in it. Each round then brings the
first entry of the shortlist nearer to the target by a bit, until it is as near as any node.
-/

open Lib.Nearest TesserasDht.Routing

namespace TesserasDht.Reach

open ClosestNodes Distances Lookup

/-! ## A measure of nearness -/

/-- No node of the network is on a higher level, the asking node apart. -/
def Best (live : NodeId → Prop) (selfId : NodeId) (level : NodeId → Nat) (id : NodeId) : Prop :=
  ∀ other, live other → other ≠ selfId → level other ≤ level id

/-- A peer of the network names nodes of the network, one of them on a higher level if there is any. -/
def Leads (live : NodeId → Prop) (selfId : NodeId) (level : NodeId → Nat)
    (send : Nat → NodeId → List SocketAddr → Lookup.Answer) : Prop :=
  ∀ r id addrs, live id → id ≠ selfId → ∃ respId addr nodes, send r id addrs = some (respId, addr, nodes) ∧
    (∀ n ∈ nodes, live n.nodeId ∧ n.addresses ≠ []) ∧
    (Best live selfId level id ∨ ∃ n ∈ nodes, n.nodeId ≠ selfId ∧ level id < level n.nodeId)

section

variable {live : NodeId → Prop} {target selfId : NodeId} {level : NodeId → Nat} {k alpha : Nat}
  {send : Nat → NodeId → List SocketAddr → Lookup.Answer}

/-- The shortlist has nodes of the network, and each peer that was asked was the best or led to a better one. -/
structure Led (live : NodeId → Prop) (target selfId : NodeId) (level : NodeId → Nat) (k alpha : Nat)
    (s : LookupState) : Prop where
  inv : LookupInv target selfId k alpha s
  entries : ∀ n ∈ s.closest, live n.nodeId ∧ n.addresses ≠ []
  asked : ∀ id ∈ s.queried, id ≠ selfId → Best live selfId level id ∨ ∃ n ∈ s.closest, level id < level n.nodeId

theorem Led.listed {s : LookupState} (h : Led live target selfId level k alpha s) : Listed target k s.closest :=
  ⟨h.inv.sorted, h.inv.len⟩

theorem Led.not_self {s : LookupState} (h : Led live target selfId level k alpha s) {n : NodeInfo}
    (hn : n ∈ s.closest) : n.nodeId ≠ selfId :=
  fun hself => h.inv.noSelf (hself ▸ List.mem_map_of_mem hn)

/-- The first entry is as near as any other. -/
theorem Led.head_le {s : LookupState} (h : Led live target selfId level k alpha s) {first n : NodeInfo}
    (hfirst : first ∈ s.closest.head?) (hn : n ∈ s.closest) : Lookup.dist target first ≤ Lookup.dist target n := by
  obtain ⟨rest, hrest⟩ := List.head?_eq_some_iff.mp hfirst
  have hsorted := sorted_iff.mp h.inv.sorted
  rw [hrest] at hsorted hn
  rcases List.mem_cons.mp hn with rfl | hn
  · exact le_refl _
  · exact le_of_lt ((List.pairwise_cons.mp hsorted).1 n hn)

/-! ## One round -/

theorem returned_entries (hleads : Leads live selfId level send) {s : LookupState}
    (h : Led live target selfId level k alpha s) (r : Nat) :
    ∀ n ∈ returned alpha send r s, live n.nodeId ∧ n.addresses ≠ [] := by
  intro n hn
  obtain ⟨answer, hanswer, hn⟩ := List.mem_flatMap.mp hn
  obtain ⟨q, hq, rfl⟩ := List.mem_map.mp hanswer
  obtain ⟨m, hm, hid⟩ := List.mem_map.mp (mem_toQuery hq).1
  obtain ⟨respId, addr, nodes, hsend, hnodes, -⟩ :=
    hleads r q.1 q.2 (hid ▸ (h.entries m hm).1) (hid ▸ h.not_self hm)
  rw [hsend] at hn
  exact hnodes n hn

theorem merged_entries (hleads : Leads live selfId level send) {s : LookupState}
    (h : Led live target selfId level k alpha s) (r : Nat) :
    ∀ n ∈ merged target selfId k alpha send r s, live n.nodeId ∧ n.addresses ≠ [] := by
  intro n hn
  rcases List.mem_append.mp ((accept_sublist ..).subset hn) with hn | hn
  · exact h.entries n hn
  · exact returned_entries hleads h r n (mem_fresh hn).1

theorem merged_near (hk : 1 ≤ k) {s : LookupState} (r : Nat) {n : NodeInfo}
    (hn : n ∈ returned alpha send r s) (hself : n.nodeId ≠ selfId) :
    ∃ m ∈ merged target selfId k alpha send r s, Lookup.dist target m ≤ Lookup.dist target n := by
  rcases fresh_complete (ids s.closest) hn hself with hid | hid
  · obtain ⟨m, hm, hid⟩ := List.mem_map.mp hid
    exact ⟨m, mem_accept_of_mem hm, by rw [Lookup.dist, Lookup.dist, hid]⟩
  · obtain ⟨m, hm, hid⟩ := List.mem_map.mp hid
    obtain ⟨m', hm', hle⟩ := accept_within (d := Lookup.dist target) (c := s.closest) (Or.inr hk) hm
    exact ⟨m', hm', hle.trans (by rw [Lookup.dist, Lookup.dist, hid])⟩

theorem next_near (hk : 1 ≤ k) {s : LookupState} (h : Led live target selfId level k alpha s) (r : Nat)
    {n : NodeInfo} (hn : n ∈ merged target selfId k alpha send r s) :
    ∃ m ∈ (next target selfId k alpha send r s).closest, Lookup.dist target m ≤ Lookup.dist target n := by
  rcases covered_nearest (k := k) (nodup_merged target selfId k alpha send r h.listed) hn rfl with hid | ⟨hfull, hcloser⟩
  · obtain ⟨m, hm, hid⟩ := List.mem_map.mp hid
    exact ⟨m, hm, by rw [Lookup.dist, Lookup.dist, hid]⟩
  · obtain ⟨m, hm⟩ := List.exists_mem_of_length_pos
      (l := nearest (RoutingTable.closer target) k (merged target selfId k alpha send r s)) (by omega)
    exact ⟨m, hm, le_of_lt (hcloser m hm)⟩

theorem next_mem {s : LookupState} (r : Nat) {n : NodeInfo}
    (hn : n ∈ (next target selfId k alpha send r s).closest) : n ∈ merged target selfId k alpha send r s :=
  (List.mem_insertionSort _).mp (List.mem_of_mem_take hn)

/-- Nearer nodes are not on a lower level. -/
def Graded (target : NodeId) (level : NodeId → Nat) : Prop :=
  ∀ a b : NodeInfo, Lookup.dist target a ≤ Lookup.dist target b → level b.nodeId ≤ level a.nodeId

theorem Led.next (hk : 1 ≤ k) (hlevel : Graded target level) (hleads : Leads live selfId level send)
    {s : LookupState} (h : Led live target selfId level k alpha s) (r : Nat) (hasks : toQuery alpha s ≠ []) :
    Led live target selfId level k alpha (Lookup.next target selfId k alpha send r s) := by
  have hmerged : Merged selfId (merged target selfId k alpha send r s) := by
    refine ⟨?_, nodup_merged target selfId k alpha send r h.listed, ?_⟩
    · obtain ⟨n, hn⟩ := List.exists_mem_of_ne_nil _ (closest_ne_nil hasks)
      exact List.ne_nil_of_mem ((closest_sublist_merged target selfId k alpha send r s).subset hn)
    · intro hself
      obtain ⟨n, hn, hid⟩ := List.mem_map.mp hself
      rcases List.mem_append.mp ((accept_sublist ..).subset hn) with hn | hn
      · exact h.not_self hn hid
      · exact (mem_fresh hn).2.1 hid
  refine ⟨nextState_inv h.inv hmerged, fun n hn => merged_entries hleads h r n (next_mem r hn), ?_⟩
  intro id hid hself
  have hbetter : ∀ n ∈ merged target selfId k alpha send r s, level id < level n.nodeId →
      ∃ m ∈ (Lookup.next target selfId k alpha send r s).closest, level id < level m.nodeId := by
    intro n hn hlt
    obtain ⟨m, hm, hle⟩ := next_near hk h r hn
    exact ⟨m, hm, hlt.trans_le (hlevel m n hle)⟩
  rcases List.mem_append.mp hid with hold | hnew
  · refine (h.asked id hold hself).imp_right fun ⟨n, hn, hlt⟩ => hbetter n ?_ hlt
    exact (closest_sublist_merged target selfId k alpha send r s).subset hn
  · obtain ⟨q, hq, rfl⟩ := List.mem_map.mp hnew
    obtain ⟨m, hm, hid⟩ := List.mem_map.mp (mem_toQuery hq).1
    obtain ⟨respId, addr, nodes, hsend, -, hled⟩ := hleads r q.1 q.2 (hid ▸ (h.entries m hm).1) hself
    refine hled.imp_right fun ⟨n, hn, hnself, hlt⟩ => ?_
    have hreturned : n ∈ returned alpha send r s := by
      refine List.mem_flatMap.mpr ⟨send r q.1 q.2, List.mem_map_of_mem hq, ?_⟩
      rw [hsend]
      exact hn
    obtain ⟨m', hm', hle⟩ := merged_near hk r hreturned hnself
    exact hbetter m' hm' (hlt.trans_le (hlevel m' n hle))

/-- A round asks the first entry of the shortlist, if that was not asked before. -/
theorem first_asked (halpha : 1 ≤ alpha) {s : LookupState} (h : Led live target selfId level k alpha s) (r : Nat)
    {first : NodeInfo} (hfirst : first ∈ s.closest.head?) :
    first.nodeId ∈ (Lookup.next target selfId k alpha send r s).queried := by
  refine (queried_next target selfId k alpha send r).mpr ?_
  by_cases hqueried : first.nodeId ∈ s.queried
  · exact Or.inl hqueried
  · obtain ⟨rest, hrest⟩ := List.head?_eq_some_iff.mp hfirst
    have haddr : first.addresses ≠ [] := (h.entries first (List.mem_of_mem_head? hfirst)).2
    obtain ⟨a, rfl⟩ : ∃ a, alpha = a + 1 := ⟨alpha - 1, by omega⟩
    right
    rw [pending, hrest, List.filter_cons_of_pos (by simp [hqueried, haddr]), List.take_succ_cons]
    exact List.mem_cons_self

/-- The first entry after a round is the best, or better than the one before it. -/
theorem first_rises (hk : 1 ≤ k) (halpha : 1 ≤ alpha) (hlevel : Graded target level)
    (hleads : Leads live selfId level send) {s : LookupState} (h : Led live target selfId level k alpha s) (r : Nat)
    (hasks : toQuery alpha s ≠ []) {first first' : NodeInfo} (hfirst : first ∈ s.closest.head?)
    (hfirst' : first' ∈ (Lookup.next target selfId k alpha send r s).closest.head?) :
    Best live selfId level first'.nodeId ∨ level first.nodeId < level first'.nodeId := by
  have hnext := h.next hk hlevel hleads r hasks
  have hmem := List.mem_of_mem_head? hfirst
  have htop : ∀ n ∈ (Lookup.next target selfId k alpha send r s).closest, level n.nodeId ≤ level first'.nodeId :=
    fun n hn => hlevel first' n (hnext.head_le hfirst' hn)
  rcases hnext.asked _ (first_asked halpha h r hfirst) (h.not_self hmem) with hbest | ⟨n, hn, hlt⟩
  · obtain ⟨m, hm, hle⟩ :=
      next_near hk h r ((closest_sublist_merged target selfId k alpha send r s).subset hmem)
    exact Or.inl fun other hlive hother =>
      (hbest other hlive hother).trans ((hlevel m first hle).trans (htop m hm))
  · exact Or.inr (hlt.trans_le (htop n hn))

/-! ## The whole lookup -/

/-- The lookup ends at the best node, or has risen by a level in each of its rounds. -/
theorem lookupFrom_rises (hk : 1 ≤ k) (halpha : 1 ≤ alpha) (hlevel : Graded target level)
    (hleads : Leads live selfId level send) (n r b : Nat) (s : LookupState)
    (h : Led live target selfId level k alpha s)
    (hb : ∀ first ∈ s.closest.head?, Best live selfId level first.nodeId ∨ b ≤ level first.nodeId) :
    ∃ s', lookupFrom target selfId k alpha send n r s = .ok s' ∧ (s'.closest = [] → s.closest = []) ∧
      ∀ first ∈ s'.closest.head?, Best live selfId level first.nodeId ∨
        s'.rounds.length = s.rounds.length + n ∧ b + n ≤ level first.nodeId := by
  induction n generalizing r b s with
  | zero =>
    refine ⟨s, rfl, id, fun first hfirst => ?_⟩
    exact (hb first hfirst).imp_right fun hle => ⟨rfl, hle⟩
  | succ n ih =>
    rw [lookupFrom_succ]
    by_cases hq : toQuery alpha s = []
    · rw [if_pos hq]
      refine ⟨s, rfl, id, fun first hfirst => Or.inl ?_⟩
      have hmem := List.mem_of_mem_head? hfirst
      have hqueried : first.nodeId ∈ s.queried := by
        have hnone := List.filter_eq_nil_iff.mp (pending_nil halpha hq) first hmem
        simpa [(h.entries first hmem).2] using hnone
      refine (h.asked _ hqueried (h.not_self hmem)).resolve_right ?_
      rintro ⟨m, hm, hlt⟩
      exact absurd (hlevel first m (h.head_le hfirst hm)) (Nat.not_le.mpr hlt)
    rw [if_neg hq]
    obtain ⟨first, hfirst⟩ : ∃ first, first ∈ s.closest.head? :=
      Option.isSome_iff_exists.mp (List.isSome_head?.mpr (closest_ne_nil hq))
    have hnext := h.next hk hlevel hleads r hq
    have hkept : (Lookup.next target selfId k alpha send r s).closest ≠ [] := by
      obtain ⟨m, hm, -⟩ := next_near hk h r
        ((closest_sublist_merged target selfId k alpha send r s).subset (List.mem_of_mem_head? hfirst))
      exact List.ne_nil_of_mem hm
    by_cases hnew : BringsNew target selfId k s.closest (returned alpha send r s)
    · rw [if_pos hnew]
      obtain ⟨s', hs', hempty, hrises⟩ := ih (r + 1) (b + 1) _ hnext <| by
        intro first' hfirst'
        rcases first_rises hk halpha hlevel hleads h r hq hfirst hfirst' with hbest | hlt
        · exact Or.inl hbest
        · rcases hb first hfirst with hbest | hle
          · have hlive := hnext.entries first' (List.mem_of_mem_head? hfirst')
            have hself := hnext.not_self (List.mem_of_mem_head? hfirst')
            exact absurd (hbest _ hlive.1 hself) (Nat.not_le.mpr hlt)
          · exact Or.inr (by omega)
      refine ⟨s', hs', fun hnil => absurd (hempty hnil) hkept, fun first' hfirst' => ?_⟩
      have hlen : (Lookup.next target selfId k alpha send r s).rounds.length = s.rounds.length + 1 := by
        simp [Lookup.next, nextState]
      rcases hrises first' hfirst' with hbest | ⟨hrounds, hle⟩
      · exact Or.inl hbest
      · exact Or.inr ⟨by omega, by omega⟩
    · rw [if_neg hnew]
      refine ⟨_, rfl, fun hnil => absurd hnil hkept, fun first' hfirst' => Or.inl ?_⟩
      -- Nothing is new, so the first entry is one that was there.
      have hold : first' ∈ s.closest := by
        rw [← (merge_round target selfId k alpha send r hq).2 hnew]
        exact next_mem r (List.mem_of_mem_head? hfirst')
      refine (first_rises hk halpha hlevel hleads h r hq hfirst hfirst').resolve_right ?_
      exact Nat.not_lt.mpr (hlevel first first' (h.head_le hfirst hold))

end

/-! ## What tables know -/

/-- The peers of a table are nodes of the network, and in every range that has nodes other than the asking one
it knows one of these. -/
structure Knows (live : NodeId → Prop) (selfId : NodeId) (t : RoutingTable) : Prop where
  placed : Placed t
  entries : ∀ n ∈ allNodes t, live n.nodeId ∧ n.addresses ≠ []
  ranges : ∀ id, live id → id ≠ selfId → id ≠ t.localId →
    ∃ n ∈ (t.bucket (t.bucketIndex id)).nodes, n.nodeId ≠ selfId

/-- A peer answers with what its table of that moment gives, and that is more than one node if there are more. -/
def Answers (live : NodeId → Prop) (target selfId : NodeId) (ok : RoutingTable → Nat → Prop)
    (send : Nat → NodeId → List SocketAddr → Lookup.Answer) : Prop :=
  ∀ r id addrs, live id → id ≠ selfId → ∃ respId addr t count now, t.localId = id ∧ Knows live selfId t ∧
    2 ≤ count ∧ ok t count ∧
    send r id addrs = some (respId, addr, (t.closestNodes target count).map fun n => n.toSerde.toInfo now)

section

variable {live : NodeId → Prop} {target selfId : NodeId} {t : RoutingTable} {count : Nat}

/-- Of two nearest peers one is not the asking node. -/
theorem exists_other {l : List NodeInfo} (hnd : (ids l).Nodup) (hcount : 2 ≤ count) {m : NodeInfo}
    (hm : m ∈ l) (hself : m.nodeId ≠ selfId) :
    ∃ n ∈ nearest (RoutingTable.closer target) count l, n.nodeId ≠ selfId ∧
      Lookup.dist target n ≤ Lookup.dist target m := by
  rcases mem_nearest_or (k := count) (closer_iff target) (nodup_dist target hnd) hm with hmem | ⟨hfull, hcloser⟩
  · exact ⟨m, hmem, hself, le_refl _⟩
  have hids : (ids (nearest (RoutingTable.closer target) count l)).Nodup :=
    (listed_nearest count hnd).sorted.nodup
  by_contra hnone
  push Not at hnone
  have hall : ∀ id ∈ ids (nearest (RoutingTable.closer target) count l), id = selfId := by
    intro id hid
    obtain ⟨n, hn, rfl⟩ := List.mem_map.mp hid
    by_contra hne
    exact absurd (hnone n hn hne) (Nat.not_lt.mpr (le_of_lt (hcloser n hn)))
  have hlen : (ids (nearest (RoutingTable.closer target) count l)).length ≤ 1 := by
    rw [List.eq_replicate_of_mem hall] at hids
    exact List.nodup_replicate.mp hids
  rw [ids, List.length_map] at hlen
  omega

/-! ## Common prefixes -/

def shared (target id : NodeId) : Nat := id.commonPrefixLength target

theorem shared_graded (target : NodeId) : Graded target (shared target) := by
  intro a b hle
  refine (le_commonPrefixLength_iff commonPrefixLength_le).mpr ?_
  have hb := (le_commonPrefixLength_iff (a := b.nodeId) (b := target) commonPrefixLength_le).mp (le_refl _)
  rw [distance_comm] at hb ⊢
  exact lt_of_le_of_lt hle hb

/-- A peer in the bucket of the target is nearer to it than the table's own node. -/
theorem shared_lt {l p : NodeId} (hlt : l ≠ target) (hlp : l ≠ p)
    (h : l.commonPrefixLength p = l.commonPrefixLength target) : shared target l < shared target p := by
  have hbound := distance_same hlt hlp h
  obtain ⟨hc, -⟩ := distance_range hlt
  refine (le_commonPrefixLength_iff hc).mpr ?_
  rw [distance_comm, show 256 - (l.commonPrefixLength target).succ = 255 - l.commonPrefixLength target by omega]
  exact hbound

/-- Where a node of the network shares more bits with the target, the table gives one that does. -/
theorem Knows.longer_prefix (h : Knows live selfId t) (hcount : 2 ≤ count) {id : NodeId} (hlive : live id)
    (hid : id ≠ selfId) (hlonger : shared target t.localId < shared target id) :
    ∃ n ∈ t.closestNodes target count, n.nodeId ≠ selfId ∧ shared target t.localId < shared target n.nodeId := by
  have hne : id ≠ t.localId := fun heq => absurd hlonger (heq ▸ lt_irrefl _)
  have hlt : target ≠ t.localId := by
    intro heq
    rw [shared, shared, ← heq, commonPrefixLength_self] at hlonger
    exact absurd hlonger (Nat.not_lt.mpr commonPrefixLength_le)
  have hprefix : t.localId.commonPrefixLength id = t.localId.commonPrefixLength target := by
    have hmin := commonPrefixLength_of_ne (a := t.localId) (b := target) (c := id) <| by
      rw [commonPrefixLength_comm target id]
      exact ne_of_lt hlonger
    rw [commonPrefixLength_comm target id] at hmin
    rw [hmin]
    exact min_eq_left (le_of_lt hlonger)
  have hindex : t.bucketIndex id = t.bucketIndex target := by
    refine Fin.ext ?_
    rw [bucketIndex_val t id hne, bucketIndex_val t target hlt, hprefix]
  obtain ⟨m, hm, hself⟩ := h.ranges id hlive hid hne
  obtain ⟨hlocal, hplace⟩ := h.placed.placed _ m hm
  have hnear : shared target t.localId < shared target m.nodeId :=
    shared_lt hlt.symm hlocal (by rw [hplace, hindex, bucketIndex_val t target hlt])
  obtain ⟨c, hclosest, hnd, -, -, hcenter⟩ := exists_candidates h.placed target count
  have hat : m ∈ t.nodesAt (t.bucketIndex target).val :=
    mem_nodesAt.mpr ⟨(t.bucketIndex target).isLt, hindex ▸ hm⟩
  obtain ⟨n, hn, hnself, hle⟩ := exists_other hnd hcount (hcenter (by omega) m hat) hself
  rw [← hclosest] at hn
  exact ⟨n, hn, hnself, hnear.trans_le (shared_graded target n m hle)⟩

theorem leads_of_answers {level : NodeId → Nat} {ok : RoutingTable → Nat → Prop}
    {send : Nat → NodeId → List SocketAddr → Lookup.Answer} (h : Answers live target selfId ok send)
    (hbetter : ∀ t count, Knows live selfId t → 2 ≤ count → ok t count → ∀ id, live id → id ≠ selfId →
      level t.localId < level id → ∃ n ∈ t.closestNodes target count, n.nodeId ≠ selfId ∧
        level t.localId < level n.nodeId) : Leads live selfId level send := by
  intro r id addrs hlive hself
  obtain ⟨respId, addr, t, count, now, rfl, hknows, hcount, hok, hsend⟩ := h r id addrs hlive hself
  refine ⟨respId, addr, _, hsend, fun n hn => ?_, ?_⟩
  · obtain ⟨m, hm, rfl⟩ := List.mem_map.mp hn
    exact hknows.entries m (hknows.placed.closestNodes_subset target count hm)
  · by_cases hbest : Best live selfId level t.localId
    · exact Or.inl hbest
    · right
      unfold Best at hbest
      push Not at hbest
      obtain ⟨other, hother, hne, hlt⟩ := hbest
      obtain ⟨n, hn, hnself, hrise⟩ := hbetter t count hknows hcount hok other hother hne hlt
      exact ⟨_, List.mem_map_of_mem hn, hnself, hrise⟩

/-! ## Distances -/

def nearness (target id : NodeId) : Nat := 2 ^ 256 - (target.distance id).value

theorem distance_lt (a b : NodeId) : (a.distance b).value < 2 ^ 256 :=
  (le_commonPrefixLength_iff (Nat.zero_le 256)).mp (Nat.zero_le _)

theorem nearness_graded (target : NodeId) : Graded target (nearness target) := by
  intro a b hle
  exact Nat.sub_le_sub_left hle _

theorem nearness_lt {a b : NodeId} :
    nearness target a < nearness target b ↔ (target.distance b).value < (target.distance a).value := by
  have := distance_lt target a
  unfold nearness
  omega

/-- Where a node of the network is nearer, so are all peers that the table knows in its range. -/
theorem nearer_of_same_range {l id p : NodeId} (hid : l ≠ id) (hp : l ≠ p)
    (hrange : l.commonPrefixLength p = l.commonPrefixLength id)
    (hnear : (target.distance id).value < (target.distance l).value) :
    (target.distance p).value < (target.distance l).value := by
  obtain ⟨hlt, hlow, hhigh⟩ := distance_range hid
  obtain ⟨-, hlow', hhigh'⟩ := distance_range hp
  have hexp : 256 - l.commonPrefixLength id = 255 - l.commonPrefixLength id + 1 := by omega
  rw [hrange] at hlow' hhigh'
  rw [hexp] at hhigh hhigh'
  rw [distance_xor l target id, distance_comm target l] at hnear
  rw [distance_xor l target p, distance_comm target l]
  exact (Lib.Xor.xor_lt_iff hlow' hhigh').mpr ((Lib.Xor.xor_lt_iff hlow hhigh).mp hnear)

/-- Where a node of the network is nearer, a table whose answer is exact gives one that is. -/
theorem Knows.nearer (h : Knows live selfId t) (hcount : 2 ≤ count) (hexact : Reached t target count) {id : NodeId}
    (hlive : live id) (hid : id ≠ selfId) (hnear : nearness target t.localId < nearness target id) :
    ∃ n ∈ t.closestNodes target count, n.nodeId ≠ selfId ∧
      nearness target t.localId < nearness target n.nodeId := by
  have hne : id ≠ t.localId := fun heq => absurd hnear (heq ▸ lt_irrefl _)
  obtain ⟨m, hm, hself⟩ := h.ranges id hlive hid hne
  obtain ⟨hlocal, hplace⟩ := h.placed.placed _ m hm
  rw [bucketIndex_val t id hne] at hplace
  have hcloser := nearer_of_same_range hne.symm hlocal hplace (nearness_lt.mp hnear)
  have hother : ∃ n ∈ nearest (RoutingTable.closer target) count (allNodes t), n.nodeId ≠ selfId ∧
      Lookup.dist target n ≤ Lookup.dist target m :=
    exists_other h.placed.nodup_ids hcount (mem_allNodes.mpr ⟨_, hm⟩) hself
  obtain ⟨n, hn, hnself, hle⟩ := hother
  rw [nearest, ← (h.placed.closestNodes_iff target count).mpr hexact] at hn
  exact ⟨n, hn, hnself, nearness_lt.mpr (lt_of_le_of_lt hle hcloser)⟩

/-! ## Lookups of a node -/

/-- A lookup of a node that starts from its own table. -/
theorem lookup_rises {level : NodeId → Nat} (hlevel : Graded target level)
    {send : Nat → NodeId → List SocketAddr → Lookup.Answer} {k alpha : Nat} (hk : 1 ≤ k) (halpha : 1 ≤ alpha)
    (hleads : Leads live t.localId level send) (hknows : Knows live t.localId t) :
    ∃ s, lookup target t.localId (t.closestNodes target k) k alpha send = .ok s ∧
      ∀ id, live id → id ≠ t.localId → ∃ seed ∈ (t.closestNodes target k).head?, ∃ first ∈ s.closest.head?,
        level id ≤ level first.nodeId ∨
          s.rounds.length = maxRounds ∧ level seed.nodeId + maxRounds ≤ level first.nodeId := by
  have hentry : ∀ n ∈ t.closestNodes target k, n.nodeId ≠ t.localId := by
    intro n hn
    obtain ⟨i, hi⟩ := mem_allNodes.mp (hknows.placed.closestNodes_subset target k hn)
    exact (hknows.placed.placed i n hi).1.symm
  have hled : Led live target t.localId level k alpha ⟨[t.localId], t.closestNodes target k, []⟩ := by
    refine ⟨⟨hknows.placed.sorted_closestNodes target k, List.length_take_le _ _, ?_, List.mem_singleton_self _, ?_, ?_, ?_⟩,
      fun n hn => hknows.entries n (hknows.placed.closestNodes_subset target k hn), ?_⟩
    · intro hself
      obtain ⟨n, hn, hid⟩ := List.mem_map.mp hself
      exact hentry n hn hid
    · rintro q ⟨⟩
    · exact List.nodup_nil
    · rintro qs ⟨⟩
    · intro id hid hne
      exact absurd (List.mem_singleton.mp hid) hne
  obtain ⟨s, hs, hempty, hrises⟩ := lookupFrom_rises hk halpha hlevel hleads maxRounds 0
    (((t.closestNodes target k).head?.map fun n => level n.nodeId).getD 0) _ hled <| by
      intro first hfirst
      right
      rw [show (t.closestNodes target k).head? = some first from hfirst]
      exact le_refl _
  refine ⟨s, hs, fun id hlive hne => ?_⟩
  have hseeds : t.closestNodes target k ≠ [] := by
    obtain ⟨m, hm, -⟩ := hknows.ranges id hlive hne hne
    have hsize : 0 < t.size := by
      rw [← length_allNodes]
      exact List.length_pos_of_mem (mem_allNodes.mpr ⟨_, hm⟩)
    refine List.ne_nil_of_length_pos ?_
    rw [hknows.placed.length_closestNodes]
    omega
  obtain ⟨seed, hseed⟩ := Option.isSome_iff_exists.mp (List.isSome_head?.mpr hseeds)
  obtain ⟨first, hfirst⟩ := Option.isSome_iff_exists.mp (List.isSome_head?.mpr fun hnil => hseeds (hempty hnil))
  refine ⟨seed, hseed, first, hfirst, ?_⟩
  rcases hrises first hfirst with hbest | ⟨hrounds, hle⟩
  · exact Or.inl (hbest id hlive hne)
  · rw [hseed] at hle
    exact Or.inr ⟨by simpa using hrounds, hle⟩

end

/-- A table with these peers. -/
def tableOf (localId : UInt8) (peers : List UInt8) : RoutingTable :=
  (Lib.Runs.run TableRun.step (TableRun.start 0 (idOf localId) 20) (peers.map fun b => .insert 0 (peerOf b))).table

def tables : List RoutingTable := [tableOf 0x00 [0x80, 0x40], tableOf 0x80 [0x40, 0xc0], tableOf 0x40 [0x00, 0x80], tableOf 0xc0 [0x80, 0x40]]

def isNode (id : NodeId) : Prop := id ∈ tables.map RoutingTable.localId

instance : DecidablePred isNode := fun _ => inferInstanceAs (Decidable (_ ∈ _))

/-- Each node answers with what it knows. -/
def honest (target : NodeId) : Nat → NodeId → List SocketAddr → Lookup.Answer := fun _ id _ =>
  (tables.find? fun t => t.localId = id).map fun t =>
    (id, .v4 127 0 0 1 4433, (t.closestNodes target 20).map fun n => n.toSerde.toInfo 0)

theorem tables_know : ∀ t ∈ tables, Knows isNode (idOf 0) t := by
  have hplaced : ∀ localId peers, Placed (tableOf localId peers) := fun localId peers =>
    run_placed 0 (idOf localId) 20 _ <| by
      intro op hop
      obtain ⟨b, -, rfl⟩ := List.mem_map.mp hop
      exact trivial
  have hentries : ∀ t ∈ tables, ∀ n ∈ allNodes t, isNode n.nodeId ∧ n.addresses ≠ [] := by
    have hbuckets : ∀ t ∈ tables, ∀ b ∈ t.buckets, ∀ n ∈ b.nodes, isNode n.nodeId ∧ n.addresses ≠ [] := by
      decide +kernel
    intro t ht n hn
    obtain ⟨i, hi⟩ := mem_allNodes.mp hn
    exact hbuckets t ht _ (List.getElem_mem _) n hi
  have hranges : ∀ t ∈ tables, ∀ id ∈ tables.map RoutingTable.localId, id ≠ idOf 0 → id ≠ t.localId →
      ∃ n ∈ (t.bucket (t.bucketIndex id)).nodes, n.nodeId ≠ idOf 0 := by decide +kernel
  intro t ht
  refine ⟨?_, hentries t ht, hranges t ht⟩
  simp only [tables, List.mem_cons, List.not_mem_nil, or_false] at ht
  rcases ht with rfl | rfl | rfl | rfl <;> exact hplaced _ _

theorem honest_answers (target : NodeId) {ok : RoutingTable → Nat → Prop} (hok : ∀ t ∈ tables, ok t 20) :
    Answers isNode target (idOf 0) ok (honest target) := by
  intro r id addrs hlive hself
  obtain ⟨t, ht, rfl⟩ := List.mem_map.mp hlive
  refine ⟨t.localId, .v4 127 0 0 1 4433, t, 20, 0, rfl, tables_know t ht, by decide, hok t ht, ?_⟩
  have hdistinct : (tables.map RoutingTable.localId).Nodup := by decide +kernel
  have hfind : tables.find? (fun t' => t'.localId = t.localId) = some t := by
    cases h : tables.find? (fun t' => t'.localId = t.localId) with
    | none =>
      have hother : t.localId ≠ t.localId := by simpa using List.find?_eq_none.mp h t ht
      exact absurd rfl hother
    | some t' =>
      have hid : t'.localId = t.localId := by simpa using List.find?_some h
      rw [List.inj_on_of_nodup_map hdistinct (List.mem_of_find?_eq_some h) ht hid]
  rw [honest, hfind]
  rfl

/-- A table with fewer peers than asked for gives all of them. -/
theorem reached_of_few {t : RoutingTable} {target : NodeId} {count : Nat} (hfew : t.size < count) :
    Reached t target count := by
  intro j hj u _ _
  have hlength := length_collected (t := t) (c := (t.bucketIndex target).val) (j - (t.bucketIndex target).val - 1)
  have hle := countP_collected_le (t := t) (c := (t.bucketIndex target).val) (fun _ => true)
    (j - (t.bucketIndex target).val - 1)
  rw [List.countP_true, hlength, length_allNodes] at hle
  rw [show (t.bucketIndex target).val + 1 + (j - (t.bucketIndex target).val - 1) = j by omega] at hle
  exact lt_of_le_of_lt hle hfew

end TesserasDht.Reach
