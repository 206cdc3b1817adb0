import TesserasDht.Code.Sqlite
import TesserasDht.TableRuns

/-!
# The routing table across a restart

`save_peers_batch` leaves exactly the peers of the table. Each of them finds room in its bucket when
the next session inserts them again, in whatever order they are read.
-/

open Lib Lib.Runs Lib.Tables TesserasDht.Routing

namespace TesserasDht.Persistence

/-! ## Saved peers -/

section

variable {json : Json} {faults : SqlFaults} {now : Nat}

/-- The row that a save writes for a peer. -/
structure Written (json : Json) (peer : NodeInfoSerde) (row : PeerRow) : Prop where
  nodeId : row.nodeId = peer.nodeId.bytes
  publicKey : row.publicKey = peer.publicKey.bytes
  addresses : json.toString peer.addresses = .ok row.addresses

theorem Written.read {peer : NodeInfoSerde} {row : PeerRow} (h : Written json peer row)
    (hkeeps : json.Keeps peer.addresses) :
    MetadataStore.readPeer json row.nodeId row.publicKey row.addresses = some peer := by
  obtain ⟨text, hto, hfrom⟩ := hkeeps
  obtain rfl : text = row.addresses := Except.ok.inj (hto.symm.trans h.addresses)
  rw [MetadataStore.readPeer, h.nodeId, h.publicKey, toArray32_bytes, toArray32_bytes, hfrom]
  rfl

theorem written_nodeIds {peers : List NodeInfoSerde} {new : List PeerRow}
    (h : List.Forall₂ (Written json) peers new) :
    new.map PeerRow.nodeId = peers.map fun p => p.nodeId.bytes := by
  induction h with
  | nil => rfl
  | cons hw _ ih => rw [List.map_cons, List.map_cons, hw.nodeId, ih]

theorem upsertPeers_ok {n : Nat} {peers : List NodeInfoSerde} {rows rows' : List PeerRow} {u : Unit}
    (h : MetadataStore.upsertPeers json faults now n peers rows = (.ok u, rows')) :
    ∃ new, List.Forall₂ (Written json) peers new ∧ rows' = replaceAll PeerRow.nodeId rows new := by
  induction peers generalizing n rows with
  | nil =>
    cases h
    exact ⟨[], .nil, rfl⟩
  | cons peer rest ih =>
    unfold MetadataStore.upsertPeers at h
    split at h
    next => cases h
    next => cases h
    next text _ htext _ =>
      obtain ⟨new, hnew, hrows⟩ := ih h
      exact ⟨_ :: new, .cons ⟨rfl, rfl, Json.serialize_ok htext⟩ hnew, hrows⟩

theorem savePeersBatch_ok {peers : List NodeInfoSerde} {rows rows' : List PeerRow} {u : Unit}
    (h : MetadataStore.savePeersBatch json faults now peers rows = (.ok u, rows')) :
    ∃ new, List.Forall₂ (Written json) peers new ∧
      rows' = MetadataStore.deleteStale peers (replaceAll PeerRow.nodeId rows new) := by
  unfold MetadataStore.savePeersBatch at h
  split at h
  next => cases h
  next =>
    have hbody := transaction_ok h
    split at hbody
    next => cases hbody
    next last hups =>
      split at hbody
      next => cases hbody
      next =>
        cases hbody
        obtain ⟨new, hnew, rfl⟩ := upsertPeers_ok hups
        exact ⟨new, hnew, rfl⟩

theorem savePeersBatch_error {peers : List NodeInfoSerde} {rows rows' : List PeerRow} {e : Failure}
    (h : MetadataStore.savePeersBatch json faults now peers rows = (.error e, rows')) : rows' = rows := by
  unfold MetadataStore.savePeersBatch at h
  split at h
  next =>
    cases h
    rfl
  next => exact transaction_error h

theorem saved_rows {peers : List NodeInfoSerde} (hnd : (peers.map NodeInfoSerde.nodeId).Nodup)
    {rows rows' : List PeerRow} {u : Unit}
    (h : MetadataStore.savePeersBatch json faults now peers rows = (.ok u, rows')) :
    List.Forall₂ (Written json) peers rows' := by
  obtain ⟨new, hnew, rfl⟩ := savePeersBatch_ok h
  have hids := written_nodeIds hnew
  have hdistinct : (new.map PeerRow.nodeId).Nodup := by
    rw [hids, ← Function.comp_def Bytes32.bytes, ← List.map_map]
    exact hnd.map fun _ _ => bytes_inj
  unfold MetadataStore.deleteStale
  split
  next hempty =>
    obtain rfl := List.isEmpty_iff.mp hempty
    exact .nil
  next =>
    rw [← hids, retain_replaceAll rows new hdistinct]
    exact hnew

theorem load_written {peers : List NodeInfoSerde} {rows : List PeerRow}
    (h : List.Forall₂ (Written json) peers rows) (hkeeps : ∀ p ∈ peers, json.Keeps p.addresses) :
    MetadataStore.loadPeers json rows = peers := by
  unfold MetadataStore.loadPeers
  induction h with
  | nil => rfl
  | cons hw _ ih =>
    obtain ⟨hp, hrest⟩ := List.forall_mem_cons.mp hkeeps
    rw [List.filterMap_cons, hw.read hp, ih hrest]

/-! ## The decoded rows -/

variable (json) in
/-- A condition on the id can be checked before the rows are decoded or after. -/
theorem loadPeers_filter (p : Bytes → Bool) (rows : List PeerRow) :
    MetadataStore.loadPeers json (rows.filter fun r => p r.nodeId) =
      (MetadataStore.loadPeers json rows).filter fun n => p n.nodeId.bytes := by
  unfold MetadataStore.loadPeers
  rw [List.filterMap_filter, List.filter_filterMap]
  congr 1
  funext r
  cases hr : MetadataStore.readPeer json r.nodeId r.publicKey r.addresses with
  | none => simp
  | some n => simp [readPeer_nodeId hr, Option.filter]

theorem loadPeers_replaceAll {peers : List NodeInfoSerde} {new : List PeerRow}
    (h : List.Forall₂ (Written json) peers new) (hkeeps : ∀ p ∈ peers, json.Keeps p.addresses)
    (rows : List PeerRow) :
    MetadataStore.loadPeers json (replaceAll PeerRow.nodeId rows new) =
      peers.foldl (fun rows p => rows.filter (fun r => r.nodeId ≠ p.nodeId) ++ [p])
        (MetadataStore.loadPeers json rows) := by
  induction h generalizing rows with
  | nil => rfl
  | @cons peer row rest new hw _ ih =>
    obtain ⟨hp, hrest⟩ := List.forall_mem_cons.mp hkeeps
    have hstep : MetadataStore.loadPeers json (replace PeerRow.nodeId rows row) =
        (MetadataStore.loadPeers json rows).filter (fun r => r.nodeId ≠ peer.nodeId) ++ [peer] := by
      have hold := loadPeers_filter json (fun id => decide (id ≠ row.nodeId)) rows
      unfold MetadataStore.loadPeers at hold ⊢
      rw [replace, List.filterMap_append, hold, List.filterMap_cons, hw.read hp, hw.nodeId]
      congr 2
      funext n
      rw [decide_eq_decide]
      exact not_congr ⟨bytes_inj, congrArg _⟩
    rw [List.foldl_cons, ← hstep, ← ih hrest]
    rfl

/-- Over the decoded rows a successful save is `TesserasDht.savePeersBatch`. -/
theorem savePeersBatch_refines {peers : List NodeInfoSerde} {rows rows' : List PeerRow} {u : Unit}
    (h : MetadataStore.savePeersBatch json faults now peers rows = (.ok u, rows'))
    (hkeeps : ∀ p ∈ peers, json.Keeps p.addresses) :
    MetadataStore.loadPeers json rows' =
      TesserasDht.savePeersBatch peers (MetadataStore.loadPeers json rows) := by
  obtain ⟨new, hnew, rfl⟩ := savePeersBatch_ok h
  rw [TesserasDht.savePeersBatch, ← loadPeers_replaceAll hnew hkeeps]
  unfold MetadataStore.deleteStale
  split
  next hempty =>
    obtain rfl := List.isEmpty_iff.mp hempty
    simp [MetadataStore.loadPeers]
  next =>
    have hkeys (id : Bytes) : (peers.any fun p => p.nodeId.bytes = id) = true ↔
        id ∈ peers.map fun p => p.nodeId.bytes := by
      simp
    rw [retain_eq_filter hkeys, loadPeers_filter json fun id => peers.any fun p => p.nodeId.bytes = id]
    refine List.filter_congr ?_
    intro n _
    rw [Bool.eq_iff_iff, List.any_eq_true, decide_eq_true_iff, List.mem_map]
    refine exists_congr fun p => and_congr_right fun _ => ?_
    rw [decide_eq_true_iff]
    exact ⟨bytes_inj, congrArg _⟩

end

/-! ## Tables -/

/-- The representation invariant. -/
structure WellFormed (t : RoutingTable) : Prop where
  nodup : ∀ i, (ids (t.bucket i).nodes).Nodup
  placed : ∀ i, ∀ n ∈ (t.bucket i).nodes, t.localId.commonPrefixLength n.nodeId = i.val
  len : ∀ i, (t.bucket i).nodes.length ≤ t.k

/-- A table that was reached with distinct ids is well formed. -/
theorem wellFormed_of_inv {k : Nat} {s : TableRun} (h : Inv s.table.localId k s) (hd : Distinct s)
    (hk : s.table.k = k) : WellFormed s.table := by
  refine ⟨hd, fun i n hn => ?_, fun i => ?_⟩
  · exact ((h.buckets i).placed n.nodeId (Or.inl (List.mem_map_of_mem hn))).2
  · rw [hk]
    simpa [slots, ids] using (h.buckets i).wf.nodes_le

/-- The peer belongs into the bucket. -/
def belongs (localId : NodeId) (i : Fin 256) (p : NodeInfoSerde) : Bool :=
  localId.commonPrefixLength (NodeId.fromBytes p.nodeId) = i.val

theorem fromBytes_asBytes (id : NodeId) : NodeId.fromBytes id.asBytes = id := rfl

theorem allNodesSerde_eq (t : RoutingTable) :
    t.allNodesSerde = (List.finRange 256).flatMap fun i => (t.bucket i).nodes.map NodeInfo.toSerde := by
  have hbuckets : t.buckets = (List.finRange 256).map t.bucket := by
    refine List.ext_getElem (by simp [t.len]) ?_
    intro i h _
    simp [RoutingTable.bucket]
  rw [RoutingTable.allNodesSerde, hbuckets, List.flatMap_map]

theorem filter_allNodesSerde {t : RoutingTable} (h : WellFormed t) (i : Fin 256) :
    t.allNodesSerde.filter (belongs t.localId i) = (t.bucket i).nodes.map NodeInfo.toSerde := by
  have hbucket (j : Fin 256) : ((t.bucket j).nodes.map NodeInfo.toSerde).filter (belongs t.localId i) =
      if j = i then (t.bucket i).nodes.map NodeInfo.toSerde else [] := by
    split
    next he =>
      subst he
      rw [List.filter_eq_self]
      intro p hp
      obtain ⟨n, hn, rfl⟩ := List.mem_map.mp hp
      exact decide_eq_true (h.placed j n hn)
    next hne =>
      rw [List.filter_eq_nil_iff]
      intro p hp hb
      obtain ⟨n, hn, rfl⟩ := List.mem_map.mp hp
      exact hne (Fin.ext ((h.placed j n hn).symm.trans (of_decide_eq_true hb)))
  have hone (l : List (Fin 256)) (hnd : l.Nodup) (rows : List NodeInfoSerde) :
      (l.flatMap fun j => if j = i then rows else []) = if i ∈ l then rows else [] := by
    induction l with
    | nil => rfl
    | cons j rest ih =>
      obtain ⟨hj, hrest⟩ := List.nodup_cons.mp hnd
      rw [List.flatMap_cons, ih hrest]
      by_cases he : j = i
      · subst he
        simp [hj]
      · simp [he, Ne.symm he]
  rw [allNodesSerde_eq, List.filter_flatMap]
  simp only [hbucket]
  rw [hone _ (List.nodup_finRange 256), if_pos (List.mem_finRange i)]

theorem mem_allNodesSerde {t : RoutingTable} {p : NodeInfoSerde} :
    p ∈ t.allNodesSerde ↔ ∃ i, ∃ n ∈ (t.bucket i).nodes, n.toSerde = p := by
  rw [allNodesSerde_eq, List.mem_flatMap]
  simp

theorem nodup_allNodesSerde {t : RoutingTable} (h : WellFormed t) :
    (t.allNodesSerde.map NodeInfoSerde.nodeId).Nodup := by
  have hids (l : List NodeInfo) : (l.map NodeInfo.toSerde).map NodeInfoSerde.nodeId =
      (ids l).map NodeId.asBytes := by
    simp [ids, NodeInfo.toSerde]
  have hinj : Function.Injective NodeId.asBytes := by
    intro a b he
    rw [← fromBytes_asBytes a, ← fromBytes_asBytes b, he]
  rw [allNodesSerde_eq, List.map_flatMap, List.nodup_flatMap]
  constructor
  · intro i _
    rw [hids]
    exact (h.nodup i).map hinj
  · refine (List.nodup_finRange 256).imp ?_
    intro i j hij id hi hj
    simp only [hids, List.mem_map] at hi hj
    obtain ⟨a, ha, rfl⟩ := hi
    obtain ⟨b, hb, he⟩ := hj
    obtain rfl := hinj he
    obtain ⟨n, hn, rfl⟩ := List.mem_map.mp ha
    obtain ⟨m, hm, he⟩ := List.mem_map.mp hb
    refine hij (Fin.ext ?_)
    rw [← h.placed i n hn, ← h.placed j m hm, he]

/-! ## Peers that are inserted again -/

/-- The buckets hold the peers of `done`, and nothing waits in a cache. -/
structure Refilled (localId : NodeId) (k : Nat) (done : List NodeInfoSerde) (t : RoutingTable) : Prop where
  local_eq : t.localId = localId
  k_eq : ∀ i, (t.bucket i).k = k
  cache : ∀ i, (t.bucket i).replacementCache = []
  nodes : ∀ i, (t.bucket i).nodes.map NodeInfo.toSerde = done.filter (belongs localId i)

section

variable {localId : NodeId} {k now : Nat} {t : RoutingTable} {done : List NodeInfoSerde}

theorem refilled_new : Refilled localId k [] (RoutingTable.new now localId k) := by
  refine ⟨rfl, ?_, ?_, ?_⟩
  all_goals
    intro i
    rw [bucket_new]
    rfl

theorem Refilled.insert (h : Refilled localId k done t) (now : Nat) {p : NodeInfoSerde}
    (hne : NodeId.fromBytes p.nodeId ≠ localId) (hnew : p.nodeId ∉ done.map NodeInfoSerde.nodeId)
    (hroom : ∀ i, belongs localId i p = true → (done.filter (belongs localId i)).length < k) :
    ∃ t', t.insert now (p.toInfo now) = .ok (t', .inserted) ∧
      Refilled localId k (done ++ [p]) t' := by
  let i := t.bucketIndex (p.toInfo now).nodeId
  have hi : i.val = localId.commonPrefixLength (NodeId.fromBytes p.nodeId) := by
    rw [← h.local_eq]
    exact bucketIndex_val t _ (by rw [h.local_eq]; exact hne)
  have hb : belongs localId i p = true := decide_eq_true hi.symm
  have hlen : (t.bucket i).nodes.length < k := by
    have := hroom i hb
    rwa [← h.nodes i, List.length_map] at this
  have hfind : (t.bucket i).nodes.find? (fun n => n.nodeId = (p.toInfo now).nodeId) = none := by
    rw [find_none_iff]
    intro hmem
    obtain ⟨n, hn, he⟩ := List.mem_map.mp hmem
    have hdone : n.toSerde ∈ done.filter (belongs localId i) := by
      rw [← h.nodes i]
      exact List.mem_map_of_mem hn
    refine hnew (List.mem_map.mpr ⟨n.toSerde, List.mem_of_mem_filter hdone, ?_⟩)
    have hid : n.nodeId.asBytes = (NodeId.fromBytes p.nodeId).asBytes := congrArg NodeId.asBytes he
    exact hid
  refine ⟨t.setBucket i { t.bucket i with
    nodes := (t.bucket i).nodes ++ [p.toInfo now], lastUpdated := now }, ?_, h.local_eq, ?_, ?_, ?_⟩
  · rw [RoutingTable.insert, if_neg (by rw [h.local_eq]; exact hne)]
    simp only [KBucket.insert, i] at hfind hlen ⊢
    rw [hfind]
    simp [KBucket.isFull, h.k_eq, hlen, bind, Except.bind, pure, Except.pure]
  · intro j
    rw [bucket_setBucket]
    split <;> exact h.k_eq _
  · intro j
    rw [bucket_setBucket]
    split <;> exact h.cache _
  · intro j
    rw [bucket_setBucket, List.filter_append]
    split
    next he =>
      subst he
      rw [List.filter_singleton, hb, List.map_append, h.nodes]
      rfl
    next hne =>
      have : belongs localId j p = false := by
        refine decide_eq_false fun hj => hne (Fin.ext ?_)
        rw [hi, hj]
      rw [List.filter_singleton, this, h.nodes]
      simp

/-- By induction on the peers that are left. -/
theorem Refilled.insertAll (h : Refilled localId k done t) (rest : List NodeInfoSerde)
    (hne : ∀ p ∈ rest, NodeId.fromBytes p.nodeId ≠ localId)
    (hnd : ((done ++ rest).map NodeInfoSerde.nodeId).Nodup)
    (hroom : ∀ i, ((done ++ rest).filter (belongs localId i)).length ≤ k) :
    Refilled localId k (done ++ rest) (loadPeers now rest t) := by
  induction rest generalizing t done with
  | nil => simpa [loadPeers] using h
  | cons p rest ih =>
    obtain ⟨hp, hrest⟩ := List.forall_mem_cons.mp hne
    have happ : done ++ p :: rest = done ++ [p] ++ rest := by simp
    have hnew : p.nodeId ∉ done.map NodeInfoSerde.nodeId := by
      rw [List.map_append, List.nodup_append] at hnd
      intro hmem
      exact hnd.2.2 _ hmem _ List.mem_cons_self rfl
    obtain ⟨t', hins, h'⟩ := h.insert now hp hnew (by
      intro i hb
      have := hroom i
      rw [List.filter_append, List.filter_cons_of_pos hb, List.length_append, List.length_cons] at this
      omega)
    have hload : loadPeers now (p :: rest) t = loadPeers now rest t' := by
      simp only [loadPeers, List.foldl_cons, hins]
    rw [hload, happ]
    rw [happ] at hnd hroom
    exact ih h' hrest hnd hroom

end

/-! ## A restart -/

/-- The table that the next session starts with. -/
def restarted (json : Json) (now : Nat) (t : RoutingTable) (read : List PeerRow) : RoutingTable :=
  loadPeers now (MetadataStore.loadPeers json read) (RoutingTable.new now t.localId t.k)

theorem restart_restores (json : Json) (faults : SqlFaults) (now later : Nat) (t : RoutingTable)
    (hwf : WellFormed t) (hjson : ∀ i, ∀ n ∈ (t.bucket i).nodes, json.Keeps n.addresses)
    (rows : List PeerRow) :
    (∀ rows' read, MetadataStore.savePeersBatch json faults now t.allNodesSerde rows = (.ok (), rows') →
      read.Perm rows' → ∀ i,
        (((restarted json later t read).bucket i).nodes.map NodeInfo.toSerde).Perm
          ((t.bucket i).nodes.map NodeInfo.toSerde) ∧
        ((restarted json later t read).bucket i).replacementCache = []) ∧
    ∀ rows' e, MetadataStore.savePeersBatch json faults now t.allNodesSerde rows = (.error e, rows') →
      rows' = rows := by
  refine ⟨?_, fun _ _ h => savePeersBatch_error h⟩
  intro rows' read hsave hread i
  have hkeeps : ∀ p ∈ t.allNodesSerde, json.Keeps p.addresses := by
    intro p hp
    obtain ⟨j, n, hn, rfl⟩ := mem_allNodesSerde.mp hp
    exact hjson j n hn
  have hloaded : (MetadataStore.loadPeers json read).Perm t.allNodesSerde := by
    have hrows := load_written (saved_rows (nodup_allNodesSerde hwf) hsave) hkeeps
    rw [← hrows]
    exact hread.filterMap _
  have hfilled : Refilled t.localId t.k ([] ++ MetadataStore.loadPeers json read)
      (restarted json later t read) := by
    refine refilled_new.insertAll _ ?_ ?_ ?_
    · intro p hp he
      obtain ⟨j, n, hn, rfl⟩ := mem_allNodesSerde.mp (hloaded.mem_iff.mp hp)
      have hplace := hwf.placed j n hn
      rw [show n.nodeId = t.localId from he, commonPrefixLength_self] at hplace
      omega
    · exact (hloaded.map _).nodup_iff.mpr (nodup_allNodesSerde hwf)
    · intro j
      rw [List.nil_append, (hloaded.filter _).length_eq, filter_allNodesSerde hwf, List.length_map]
      exact hwf.len j
  refine ⟨?_, hfilled.cache i⟩
  rw [hfilled.nodes i, List.nil_append, ← filter_allNodesSerde hwf i]
  exact hloaded.filter _

/-- `serde_json` on the addresses of the peers below. -/
def localJson : Json :=
  let text := "[\"127.0.0.1:4433\"]"
  { toString := fun addrs => .ok (if addrs = [.v4 127 0 0 1 4433] then text else "[]")
    fromStr := fun s => if s = text then .ok [.v4 127 0 0 1 4433] else .ok [] }

/-- Three peers in two buckets. -/
def threePeers : List TableOp :=
  [.insert 1 (peerOf 0x80), .insert 2 (peerOf 0x40), .insert 3 (peerOf 0x81)]

def threePeersTable : RoutingTable := (run TableRun.step (TableRun.start 0 (idOf 0) 2) threePeers).table

/-- The store still has a row of another peer, and the rows are read from the last to the first. -/
theorem restart_restores_three :
    let saved := MetadataStore.savePeersBatch localJson (fun _ => none) 5 threePeersTable.allNodesSerde
      [⟨(idOf 7).bytes, (idOf 7).bytes, "[]", 1⟩]
    saved.1 = .ok () ∧ ∀ i,
      (((restarted localJson 9 threePeersTable saved.2.reverse).bucket i).nodes.map NodeInfo.toSerde).Perm
        ((threePeersTable.bucket i).nodes.map NodeInfo.toSerde) := by
  have hmeets : Meets TableRun.step Separate (TableRun.start 0 (idOf 0) 2) threePeers := by decide
  have hstart : Inv (idOf 0) 2 (TableRun.start 0 (idOf 0) 2) ∧ Distinct (TableRun.start 0 (idOf 0) 2) := by
    refine ⟨inv_start 0 (idOf 0) 2, fun i => ?_⟩
    rw [TableRun.start, bucket_new]
    exact List.nodup_nil
  obtain ⟨hinv, hdistinct⟩ := run_inv (step_distinct (by decide)) hstart hmeets
  have hwf : WellFormed threePeersTable := wellFormed_of_inv hinv hdistinct rfl
  have hjson : ∀ i, ∀ n ∈ (threePeersTable.bucket i).nodes, localJson.Keeps n.addresses := by
    have haddr : ∀ p ∈ threePeersTable.allNodesSerde, p.addresses = [.v4 127 0 0 1 4433] := by
      decide +kernel
    intro i n hn
    have := haddr n.toSerde (mem_allNodesSerde.mpr ⟨i, n, hn, rfl⟩)
    rw [show n.addresses = _ from this]
    exact ⟨_, rfl, rfl⟩
  have hsave : (MetadataStore.savePeersBatch localJson (fun _ => none) 5 threePeersTable.allNodesSerde
      [⟨(idOf 7).bytes, (idOf 7).bytes, "[]", 1⟩]).1 = .ok () := by
    decide +kernel
  refine ⟨hsave, fun i => ?_⟩
  exact ((restart_restores localJson (fun _ => none) 5 9 threePeersTable hwf hjson _).1 _ _
    (Prod.fst_eq_iff.mp hsave) (List.reverse_perm _) i).1

end TesserasDht.Persistence
