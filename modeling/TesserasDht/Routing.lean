import TesserasDht.Code.Routing
import TesserasDht.Lib.Runs
import TesserasDht.Lib.Slots

/-!
# What the routing table keeps

Each bucket is a `Lib.Slots` of ids: one lemma per operation says which change of the ids it is.
The invariants of the table follow for every run of operations.
-/

open Lib Lib.Lists Lib.Runs

namespace TesserasDht.Routing

/-! ## A bucket refines its ids -/

def ids (l : List NodeInfo) : List NodeId := l.map NodeInfo.nodeId

def slots (b : KBucket) : Slots NodeId := ⟨ids b.nodes, ids b.replacementCache⟩

theorem any_iff_mem (l : List NodeInfo) (id : NodeId) :
    (l.any fun n => n.nodeId = id) = true ↔ id ∈ ids l := by
  simp [ids]

theorem find_none_iff (l : List NodeInfo) (id : NodeId) :
    (l.find? fun n => n.nodeId = id) = none ↔ id ∉ ids l := by
  simp [ids]

theorem ids_filter (l : List NodeInfo) (id : NodeId) :
    ids (l.filter fun n => n.nodeId ≠ id) = (ids l).filter (· ≠ id) := by
  simp [ids, List.filter_map, Function.comp_def]

theorem ids_eraseP (l : List NodeInfo) (id : NodeId) :
    ids (l.eraseP fun n => n.nodeId = id) = (ids l).erase id :=
  map_eraseP_eq_erase NodeInfo.nodeId id l

/-- `k` and the cache size, which no operation changes. -/
def sizes (b : KBucket) : Nat × Nat := (b.k, b.maxCacheSize)

theorem slots_modifyFirst (b : KBucket) (p : NodeInfo → Bool) (f : NodeInfo → NodeInfo)
    (hf : ∀ n, (f n).nodeId = n.nodeId) :
    slots { b with nodes := modifyFirst p f b.nodes } = slots b := by
  simp only [slots, ids, map_modifyFirst p f _ hf]

theorem addToCache_slots (b : KBucket) (node : NodeInfo) :
    slots (b.addToCache node) = { slots b with
      cache := let c := (ids b.replacementCache).filter (· ≠ node.nodeId) ++ [node.nodeId]
               c.drop (c.length - b.maxCacheSize) } := by
  have hcache : ids (b.replacementCache.filter (fun n => n.nodeId ≠ node.nodeId) ++ [node]) =
      (ids b.replacementCache).filter (· ≠ node.nodeId) ++ [node.nodeId] := by
    rw [← ids_filter]; simp [ids]
  simp only [slots, KBucket.addToCache, ← hcache]
  simp [ids]

theorem insert_spec (b : KBucket) (now : Nat) (node : NodeInfo) (hk : 1 ≤ b.k)
    (hmax : b.maxCacheSize = b.k) :
    ∃ b' r, b.insert now node = .ok (b', r) ∧ sizes b' = sizes b ∧
      slots b' = (slots b).insert b.k node.nodeId ∧
      ∀ f, r = .bucketFull f → f ∈ ids b.nodes := by
  unfold KBucket.insert
  cases hfind : b.nodes.find? (fun n => n.nodeId = node.nodeId) with
  | some n =>
    have hmem : node.nodeId ∈ ids b.nodes := by
      by_contra hno
      rw [(find_none_iff _ _).mpr hno] at hfind
      cases hfind
    refine ⟨_, _, rfl, rfl, ?_, by simp⟩
    rw [Slots.insert, if_pos (by exact hmem)]
    exact slots_modifyFirst b _ _ (fun _ => rfl)
  | none =>
    have hno : node.nodeId ∉ ids b.nodes := (find_none_iff _ _).mp hfind
    by_cases hfull : b.k ≤ b.nodes.length
    · obtain ⟨lrs, rest, hnodes⟩ := List.exists_cons_of_length_pos (by omega : 0 < b.nodes.length)
      refine ⟨b.addToCache node, .bucketFull lrs.nodeId, ?_, rfl, ?_, ?_⟩
      · simp only [KBucket.isFull, hfull, decide_true, Bool.not_true, Bool.false_eq_true, if_false]
        rw [hnodes]
      · rw [Slots.insert, if_neg (by exact hno), if_neg (by simp [slots, ids]; omega),
          addToCache_slots, hmax]
        rfl
      · rintro f ⟨⟩
        simp [hnodes, ids]
    · refine ⟨{ b with nodes := b.nodes ++ [node], lastUpdated := now }, .inserted, ?_, rfl, ?_,
        by simp⟩
      · simp [KBucket.isFull, hfull]
      · rw [Slots.insert, if_neg (by exact hno), if_pos (by simp [slots, ids]; omega)]
        simp [slots, ids]

theorem evictAndInsert_spec (b : KBucket) (now : Nat) (failedId : NodeId) (newNode : NodeInfo) :
    sizes (b.evictAndInsert now failedId newNode).1 = sizes b ∧
      slots (b.evictAndInsert now failedId newNode).1 = (slots b).evict failedId newNode.nodeId := by
  unfold KBucket.evictAndInsert Slots.evict
  by_cases hmem : failedId ∈ ids b.nodes
  · rw [if_pos ((any_iff_mem _ _).mpr hmem), if_pos (by exact hmem)]
    refine ⟨rfl, ?_⟩
    simp only [slots, ← ids_eraseP, ← ids_filter]
    simp [ids]
  · rw [if_neg (by rwa [any_iff_mem]), if_neg (by exact hmem)]
    exact ⟨rfl, rfl⟩

theorem remove_spec (b : KBucket) (nodeId : NodeId) :
    sizes (b.remove nodeId).1 = sizes b ∧ slots (b.remove nodeId).1 = (slots b).remove nodeId := by
  unfold KBucket.remove Slots.remove
  by_cases hmem : nodeId ∈ ids b.nodes
  · rw [if_pos ((any_iff_mem _ _).mpr hmem), if_pos (by exact hmem)]
    refine ⟨rfl, ?_⟩
    simp only [slots, ← ids_eraseP]
    cases hl : b.replacementCache.getLast? <;> simp [ids, hl]
  · rw [if_neg (by rwa [any_iff_mem]), if_neg (by exact hmem)]
    exact ⟨rfl, rfl⟩

theorem recordFailure_spec (b : KBucket) (nodeId : NodeId) (maxFailures : UInt8) :
    sizes (b.recordFailure nodeId maxFailures) = sizes b ∧
      (slots (b.recordFailure nodeId maxFailures) = slots b ∨
        slots (b.recordFailure nodeId maxFailures) = (slots b).remove nodeId) := by
  unfold KBucket.recordFailure
  cases hfind : b.nodes.find? (fun n => n.nodeId = nodeId) with
  | none => exact ⟨rfl, Or.inl rfl⟩
  | some node =>
    have hid : node.nodeId = nodeId := by simpa using List.find?_some hfind
    have hslots := slots_modifyFirst b (fun n => n.nodeId = nodeId) NodeInfo.recordFailure (fun _ => rfl)
    simp only
    split
    · obtain ⟨hsizes, hrem⟩ := remove_spec { b with
        nodes := modifyFirst (fun n => n.nodeId = nodeId) NodeInfo.recordFailure b.nodes } node.nodeId
      refine ⟨hsizes, Or.inr ?_⟩
      rw [hrem, hslots, hid]
    · exact ⟨rfl, Or.inl hslots⟩

theorem markSeen_spec (b : KBucket) (now : Nat) (nodeId : NodeId) :
    sizes (b.markSeen now nodeId) = sizes b ∧ slots (b.markSeen now nodeId) = slots b :=
  ⟨rfl, slots_modifyFirst b _ _ (fun _ => rfl)⟩

/-! ## One bucket keeps its invariant -/

structure BucketInv (localId : NodeId) (k : Nat) (i : Fin 256) (b : KBucket) : Prop where
  sizes_eq : sizes b = (k, k)
  wf : (slots b).Wf k
  placed : ∀ id, id ∈ (slots b).nodes ∨ id ∈ (slots b).cache →
    id ≠ localId ∧ localId.commonPrefixLength id = i

section

variable {localId : NodeId} {k : Nat} {i : Fin 256} {b : KBucket}

theorem bucketInv_new (now : Nat) : BucketInv localId k i (KBucket.new now k) :=
  ⟨rfl, ⟨by simp [slots, ids, KBucket.new], by simp [slots, ids, KBucket.new],
    by simp [slots, ids, KBucket.new], by simp [slots, ids, KBucket.new],
    by simp [slots, ids, KBucket.new]⟩, by simp [slots, ids, KBucket.new]⟩

theorem BucketInv.change (h : BucketInv localId k i b) {P : NodeId → Prop} {E : NodeId → NodeId → Prop}
    {b' : KBucket} (hs : sizes b' = sizes b) (hc : (slots b).Change k P E (slots b'))
    (hP : ∀ id, P id → id ≠ localId ∧ localId.commonPrefixLength id = i)
    (hE : ∀ f id, f ∈ (slots b).nodes → E f id → id ≠ localId ∧ localId.commonPrefixLength id = i) :
    BucketInv localId k i b' := by
  refine ⟨hs.trans h.sizes_eq, hc.wf h.wf, ?_⟩
  intro id hid
  rcases hc.mem hid with hid | ⟨f, hf, hid⟩ | hid
  · exact hP id hid
  · exact hE f id hf hid
  · exact h.placed id hid

end

/-! ## The table, bucket by bucket -/

theorem bucket_setBucket (t : RoutingTable) (i j : Fin 256) (b : KBucket) :
    (t.setBucket i b).bucket j = if i = j then b else t.bucket j := by
  simp only [RoutingTable.bucket, RoutingTable.setBucket, List.get_eq_getElem, List.getElem_set,
    Fin.ext_iff]

theorem bucket_new (now : Nat) (localId : NodeId) (k : Nat) (i : Fin 256) :
    (RoutingTable.new now localId k).bucket i = KBucket.new now k :=
  List.getElem_replicate _

theorem bucket_recordFailureByAddr (t : RoutingTable) (addr : SocketAddr) (max : UInt8)
    (j : Fin 256) :
    (t.recordFailureByAddr addr max).bucket j = t.bucket j ∨
      ∃ id, (t.recordFailureByAddr addr max).bucket j = (t.bucket j).recordFailure id max := by
  have hget : ∀ u : RoutingTable, u.buckets[j.val]? = some (u.bucket j) :=
    fun u => List.getElem?_eq_getElem (by rw [u.len]; exact j.isLt)
  have hold := hget t
  have hnew := hget (t.recordFailureByAddr addr max)
  unfold RoutingTable.recordFailureByAddr at hnew ⊢
  rcases getElem?_modifyFirst _ _ t.buckets j.val with h | h
  · rw [h, hold] at hnew
    exact Or.inl (Option.some.inj hnew).symm
  · rw [h, hold, Option.map_some] at hnew
    rw [← Option.some.inj hnew]
    cases (t.bucket j).nodes.find? _ with
    | none => exact Or.inl rfl
    | some n => exact Or.inr ⟨n.nodeId, rfl⟩

theorem bucketIndex_val (t : RoutingTable) (id : NodeId) (h : id ≠ t.localId) :
    (t.bucketIndex id).val = t.localId.commonPrefixLength id := by
  have := NodeId.commonPrefixLength_lt t.localId id h.symm
  simp only [RoutingTable.bucketIndex]
  omega

theorem commonPrefixLength_self (a : NodeId) : a.commonPrefixLength a = 256 := by
  have hzero (i : Nat) (l : Bytes) (h : ∀ b ∈ l, b = 0) : Distance.leadingZerosFrom i l = 256 := by
    induction l generalizing i with
    | nil => rfl
    | cons b bs ih =>
      obtain ⟨hb, hbs⟩ := List.forall_mem_cons.mp h
      rw [Distance.leadingZerosFrom, if_neg (not_not.mpr hb), ih _ hbs]
  apply hzero
  intro b hb
  obtain ⟨i, hi⟩ := List.mem_iff_getElem?.mp hb
  simp only [NodeId.distance, Lib.Bytes.xor, List.getElem?_zipWith] at hi
  cases hget : a.bytes[i]? with
  | none => simp [hget] at hi
  | some x =>
    simp only [hget, Option.some.injEq] at hi
    rw [← hi, UInt8.xor_self]

/-! ## Peers for concrete runs -/

/-- The id `[b, 0, .., 0]`. -/
def idOf (b : UInt8) : NodeId := ⟨b :: List.replicate 31 0, rfl⟩

def peerOf (b : UInt8) : NodeInfo := NodeInfo.new 0 (idOf b) (Bytes32.fill b) [.v4 127 0 0 1 4433]

end TesserasDht.Routing
