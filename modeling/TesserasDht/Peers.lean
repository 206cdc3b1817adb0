import TesserasDht.Admission
import TesserasDht.Conduct

/-!
# Which peers a node stores

What holds of every peer that is inserted holds of every peer in the buckets and in the replacement
caches, whatever else happens to the table, and of the peers that are saved and loaded again.
-/

open Lib.Lists Lib.Tasks Lib.Runs

namespace TesserasDht.Peers

open Conduct

/-! ## A property of peers -/

/-- The property is one of the id, the key and each of the addresses. -/
def Stable (Good : NodeInfo → Prop) : Prop :=
  ∀ n m n', Good n → Good m → n'.nodeId = n.nodeId → n.nodeId = m.nodeId →
    n'.publicKey = n.publicKey → (∀ a ∈ n'.addresses, a ∈ n.addresses ∨ a ∈ m.addresses) → Good n'

theorem Stable.same {Good : NodeInfo → Prop} (h : Stable Good) {n n' : NodeInfo} (hn : Good n)
    (hid : n'.nodeId = n.nodeId) (hkey : n'.publicKey = n.publicKey)
    (haddrs : n'.addresses = n.addresses) : Good n' := by
  refine h n n n' hn hn hid rfl hkey ?_
  rw [haddrs]
  exact fun a ha => Or.inl ha

theorem Stable.recordFailure {Good : NodeInfo → Prop} (h : Stable Good) (n : NodeInfo) (hn : Good n) :
    Good n.recordFailure :=
  h.same hn rfl rfl rfl

def BucketGood (Good : NodeInfo → Prop) (b : KBucket) : Prop :=
  (∀ n ∈ b.nodes, Good n) ∧ ∀ n ∈ b.replacementCache, Good n

def TableGood (Good : NodeInfo → Prop) (t : RoutingTable) : Prop := ∀ i, BucketGood Good (t.bucket i)

theorem mem_foldl_new {new acc : List SocketAddr} {a : SocketAddr}
    (h : a ∈ new.foldl (fun acc a => if a ∈ acc then acc else acc ++ [a]) acc) :
    a ∈ acc ∨ a ∈ new := by
  induction new generalizing acc with
  | nil => exact Or.inl h
  | cons b rest ih =>
    rcases ih h with h | h
    · dsimp only at h
      split at h
      · exact Or.inl h
      · rcases List.mem_append.mp h with h | h
        · exact Or.inl h
        · rw [List.mem_singleton.mp h]
          exact Or.inr List.mem_cons_self
    · exact Or.inr (List.mem_cons_of_mem _ h)

theorem mem_mergeAddresses {old new : List SocketAddr} {a : SocketAddr}
    (h : a ∈ mergeAddresses old new) : a ∈ old ∨ a ∈ new :=
  mem_foldl_new ((List.perm_insertionSort _ _).mem_iff.mp (List.mem_of_mem_take h))

section

variable {Good : NodeInfo → Prop}

theorem concat_good {l : List NodeInfo} {node : NodeInfo} (h : ∀ n ∈ l, Good n) (hnode : Good node) :
    ∀ n ∈ l ++ [node], Good n := by
  intro n hn
  rcases List.mem_append.mp hn with hn | hn
  · exact h n hn
  · rw [List.mem_singleton.mp hn]
    exact hnode

theorem modifyFirst_good {p : NodeInfo → Bool} {f : NodeInfo → NodeInfo} {l : List NodeInfo}
    (hf : ∀ n, Good n → p n = true → Good (f n)) (h : ∀ n ∈ l, Good n) :
    ∀ n ∈ modifyFirst p f l, Good n := by
  intro n hn
  rcases mem_modifyFirst hn with hn | ⟨m, hm, hp, rfl⟩
  · exact h n hn
  · exact hf m (h m hm) hp

/-! ## Buckets -/

theorem insert_bucketGood (hstable : Stable Good) {b b' : KBucket} {r : InsertResult} {now : Nat}
    {node : NodeInfo} (h : BucketGood Good b) (hnode : Good node)
    (hins : b.insert now node = .ok (b', r)) : BucketGood Good b' := by
  unfold KBucket.insert at hins
  split at hins
  · cases hins
    refine ⟨modifyFirst_good (fun n hn hid => ?_) h.1, h.2⟩
    exact hstable n node _ hn hnode rfl (by simpa using hid) rfl fun a ha => mem_mergeAddresses ha
  · split at hins
    · cases hins
      exact ⟨concat_good h.1 hnode, h.2⟩
    · split at hins
      · cases hins
      · cases hins
        refine ⟨h.1, fun n hn => ?_⟩
        have hcache : ∀ n ∈ b.replacementCache.filter (fun n => n.nodeId ≠ node.nodeId), Good n :=
          fun n hn => h.2 n (List.mem_of_mem_filter hn)
        exact concat_good hcache hnode n (List.mem_of_mem_drop hn)

theorem evictAndInsert_bucketGood {b : KBucket} (now : Nat) (failedId : NodeId) {node : NodeInfo}
    (h : BucketGood Good b) (hnode : Good node) :
    BucketGood Good (b.evictAndInsert now failedId node).1 := by
  unfold KBucket.evictAndInsert
  split
  · exact ⟨concat_good (fun n hn => h.1 n (List.mem_of_mem_eraseP hn)) hnode,
      fun n hn => h.2 n (List.mem_of_mem_filter hn)⟩
  · exact h

theorem remove_bucketGood {b : KBucket} (nodeId : NodeId) (h : BucketGood Good b) :
    BucketGood Good (b.remove nodeId).1 := by
  unfold KBucket.remove
  split
  · refine ⟨fun n hn => ?_, fun n hn => h.2 n (List.mem_of_mem_dropLast hn)⟩
    rcases List.mem_append.mp hn with hn | hn
    · exact h.1 n (List.mem_of_mem_eraseP hn)
    · exact h.2 n (List.mem_of_getLast? (Option.mem_toList.mp hn))
  · exact h

theorem recordFailure_bucketGood (hcharge : ∀ n, Good n → Good n.recordFailure) {b : KBucket}
    (nodeId : NodeId) (maxFailures : UInt8) (h : BucketGood Good b) :
    BucketGood Good (b.recordFailure nodeId maxFailures) := by
  have hcharged : BucketGood Good { b with
      nodes := modifyFirst (fun n => n.nodeId = nodeId) NodeInfo.recordFailure b.nodes } :=
    ⟨modifyFirst_good (fun n hn _ => hcharge n hn) h.1, h.2⟩
  unfold KBucket.recordFailure
  split
  · exact h
  · dsimp only
    split
    · exact remove_bucketGood _ hcharged
    · exact hcharged

/-! ## Tables -/

theorem setBucket_tableGood {t : RoutingTable} {i : Fin 256} {b : KBucket} (h : TableGood Good t)
    (hb : BucketGood Good b) : TableGood Good (t.setBucket i b) := by
  intro j
  rw [Routing.bucket_setBucket]
  split
  · exact hb
  · exact h j

theorem new_tableGood (now : Nat) (localId : NodeId) (k : Nat) :
    TableGood Good (RoutingTable.new now localId k) := by
  intro i
  rw [Routing.bucket_new]
  exact ⟨by rintro _ ⟨⟩, by rintro _ ⟨⟩⟩

theorem insert_tableGood (hstable : Stable Good) {t t' : RoutingTable} {r : InsertResult} {now : Nat}
    {node : NodeInfo} (h : TableGood Good t) (hnode : Good node)
    (hins : t.insert now node = .ok (t', r)) : TableGood Good t' := by
  unfold RoutingTable.insert at hins
  split at hins
  · cases hins
    exact h
  · obtain ⟨⟨b, r'⟩, hb, hins⟩ := bind_ok hins
    cases hins
    exact setBucket_tableGood h (insert_bucketGood hstable (h _) hnode hb)

theorem recordFailureByAddr_tableGood (hcharge : ∀ n, Good n → Good n.recordFailure)
    {t : RoutingTable} (addr : SocketAddr) (maxFailures : UInt8) (h : TableGood Good t) :
    TableGood Good (t.recordFailureByAddr addr maxFailures) := by
  intro i
  rcases Routing.bucket_recordFailureByAddr t addr maxFailures i with hi | ⟨id, hi⟩
  · rw [hi]
    exact h i
  · rw [hi]
    exact recordFailure_bucketGood hcharge id maxFailures (h i)

/-- A node of a bucket. -/
def Contains (t : RoutingTable) (n : NodeInfo) : Prop := ∃ i, n ∈ (t.bucket i).nodes

theorem contains_of_nodesAt {t : RoutingTable} {i : Nat} {n : NodeInfo} (h : n ∈ t.nodesAt i) :
    Contains t n := by
  unfold RoutingTable.nodesAt at h
  cases hi : t.buckets[i]? with
  | none =>
    rw [hi] at h
    cases h
  | some b =>
    rw [hi] at h
    obtain ⟨hlt, hb⟩ := List.getElem?_eq_some_iff.mp hi
    have hlt' := hlt
    rw [t.len] at hlt'
    exact ⟨⟨i, hlt'⟩, by rw [RoutingTable.bucket, List.get_eq_getElem, hb]; exact h⟩

theorem contains_of_walk {t : RoutingTable} {count rounds lo hi : Nat} {candidates : List NodeInfo}
    (hc : ∀ n ∈ candidates, Contains t n) :
    ∀ n ∈ t.walk count rounds lo hi candidates, Contains t n := by
  have hadd (c : List NodeInfo) (hc : ∀ n ∈ c, Contains t n) (p : Prop) [Decidable p] (i : Nat) :
      ∀ n ∈ if p then c ++ t.nodesAt i else c, Contains t n := by
    intro n hn
    split at hn
    · rcases List.mem_append.mp hn with hn | hn
      · exact hc n hn
      · exact contains_of_nodesAt hn
    · exact hc n hn
  induction rounds generalizing lo hi candidates with
  | zero => exact hc
  | succ rounds ih =>
    unfold RoutingTable.walk
    split
    · exact ih (hadd _ (hadd _ hc _ _) _ _)
    · exact hc

theorem contains_of_closestNodes {t : RoutingTable} {target : NodeId} {count : Nat} {n : NodeInfo}
    (h : n ∈ t.closestNodes target count) : Contains t n :=
  contains_of_walk (by rintro _ ⟨⟩) n
    ((List.perm_insertionSort _ _).mem_iff.mp (List.mem_of_mem_take h))

theorem contains_of_allNodesSerde {t : RoutingTable} {p : NodeInfoSerde} (h : p ∈ t.allNodesSerde) :
    ∃ n, Contains t n ∧ p = n.toSerde := by
  obtain ⟨b, hb, hp⟩ := List.mem_flatMap.mp h
  obtain ⟨n, hn, rfl⟩ := List.mem_map.mp hp
  obtain ⟨i, hi⟩ := List.mem_iff_getElem?.mp hb
  exact ⟨n, contains_of_nodesAt (i := i) (by rw [RoutingTable.nodesAt, hi]; exact hn), rfl⟩

theorem TableGood.contains {t : RoutingTable} (h : TableGood Good t) {n : NodeInfo}
    (hn : Contains t n) : Good n := by
  obtain ⟨i, hi⟩ := hn
  exact (h i).1 n hi

/-! ## Peers that are saved and loaded -/

theorem toInfo_good (hstable : Stable Good) {p : NodeInfoSerde} (h : Listed Good p) (now : Nat) :
    Good (p.toInfo now) := by
  obtain ⟨node, hnode, rfl⟩ := h
  exact hstable.same hnode rfl rfl rfl

theorem mem_savePeersBatch {peers rows : List NodeInfoSerde} {p : NodeInfoSerde}
    (h : p ∈ savePeersBatch peers rows) : p ∈ peers ∨ p ∈ rows := by
  have hrows (rows : List NodeInfoSerde)
      (h : p ∈ peers.foldl (fun rows p => rows.filter (fun r => r.nodeId ≠ p.nodeId) ++ [p]) rows) :
      p ∈ peers ∨ p ∈ rows := by
    clear * - h
    induction peers generalizing rows with
    | nil => exact Or.inr h
    | cons q rest ih =>
      rcases ih _ h with h | h
      · exact Or.inl (List.mem_cons_of_mem _ h)
      · rcases List.mem_append.mp h with h | h
        · exact Or.inr (List.mem_of_mem_filter h)
        · rw [List.mem_singleton.mp h]
          exact Or.inl List.mem_cons_self
  exact hrows rows (List.mem_of_mem_filter h)

theorem loadPeers_tableGood (hstable : Stable Good) (now : Nat) {peers : List NodeInfoSerde}
    (hpeers : ∀ p ∈ peers, Listed Good p) {t : RoutingTable} (h : TableGood Good t) :
    TableGood Good (loadPeers now peers t) := by
  induction peers generalizing t with
  | nil => exact h
  | cons p rest ih =>
    refine ih (fun q hq => hpeers q (List.mem_cons_of_mem _ hq)) ?_
    dsimp only
    split
    next t' r hins =>
      exact insert_tableGood hstable h
        (toInfo_good hstable (hpeers p List.mem_cons_self) now) hins
    next => exact h

/-- The peers that the node knows, in memory and on disk. -/
structure NodeGood (Good : NodeInfo → Prop) (s : NodeState) : Prop where
  table : TableGood Good s.routingTable
  saved : ∀ p ∈ s.savedPeers, Listed Good p

theorem restarted_nodeGood (hstable : Stable Good) (now : Nat) (ctx : HandlerContext) {s : NodeState}
    (h : NodeGood Good s) : NodeGood Good (Network.restarted now ctx s) :=
  ⟨loadPeers_tableGood hstable now h.saved (new_tableGood _ _ _), h.saved⟩

end

/-! ## One operation -/

section

variable {T : Trust} (hstable : Stable T.Good) (b : Build) (sha256 : Bytes → Hash) {g : Requests}
  {e : Op} (input : Input) {s : NodeState}

include hstable

/-- An operation that a task may perform stores only peers that may be stored. -/
theorem apply_nodeGood (howes : T.contract.owes g e) (h : NodeGood T.Good s) :
    NodeGood T.Good (e.apply b sha256 input s).2 := by
  cases e with
  | insert node =>
    dsimp only [Op.apply]
    split
    next t r hins => exact ⟨insert_tableGood hstable h.table howes hins, h.saved⟩
    next => exact h
  | evictAndInsert f node =>
    exact ⟨setBucket_tableGood h.table (evictAndInsert_bucketGood _ _ (h.table _) howes), h.saved⟩
  | recordFailure id max =>
    exact ⟨setBucket_tableGood h.table (recordFailure_bucketGood hstable.recordFailure _ _ (h.table _)), h.saved⟩
  | recordFailureByAddr addr max =>
    exact ⟨recordFailureByAddr_tableGood hstable.recordFailure addr max h.table, h.saved⟩
  | savePeersBatch peers =>
    dsimp only [Op.apply]
    split
    · exact h
    · refine ⟨h.table, fun p hp => ?_⟩
      rcases mem_savePeersBatch hp with hp | hp
      · exact howes p hp
      · exact h.saved p hp
  | addProvider key id pk addrs ttl =>
    dsimp only [Op.apply]
    split
    · exact h
    · split
      · exact ⟨h.table, h.saved⟩
      · exact h
  | _ => exact ⟨h.table, h.saved⟩

omit hstable in
theorem apply_requests (e : Op) (s : NodeState) :
    (e.apply b sha256 input s).2.requests = s.requests ∨
      ∃ out, e = .send out ∧ (e.apply b sha256 input s).2.requests = s.requests ++ [out] := by
  cases e with
  | insert node =>
    dsimp only [Op.apply]
    split
    · exact Or.inl rfl
    · exact Or.inl rfl
  | savePeersBatch peers =>
    dsimp only [Op.apply]
    split
    · exact Or.inl rfl
    · exact Or.inl rfl
  | addProvider key id pk addrs ttl =>
    dsimp only [Op.apply]
    split
    · exact Or.inl rfl
    · split
      · exact Or.inl rfl
      · exact Or.inl rfl
  | send out => exact Or.inr ⟨out, rfl, rfl⟩
  | _ => exact Or.inl rfl

omit hstable in
theorem apply_gets (h : NodeGood T.Good s)
    (hfresh : ∀ n out, g n = some out → s.requests[n]? = some out)
    (hanswer : ∀ request, e = .await request → ∀ out ∈ g request, ∀ msg ∈ input.answer,
      T.Reply out msg) :
    T.contract.gets g e (e.apply b sha256 input s).1 := by
  cases e with
  | closestNodes target count => exact fun n hn => h.table.contains (contains_of_closestNodes hn)
  | allNodesSerde =>
    intro p hp
    obtain ⟨n, hn, rfl⟩ := contains_of_allNodesSerde hp
    exact ⟨n, h.table.contains hn, rfl⟩
  | send out =>
    -- the number is past those of all earlier requests
    by_contra hne
    obtain ⟨out', hout'⟩ := Option.ne_none_iff_exists'.mp hne
    have hlt := (List.getElem?_eq_some_iff.mp (hfresh _ _ hout')).1
    exact absurd hlt (lt_irrefl s.requests.length)
  | await request => exact hanswer request rfl
  | _ => exact trivial

end

/-! ## A network -/

section

variable {ν : Type} {net : Network ν}

theorem mem_reply {label : Label ν} {e : Op} {r : Reply ν} (h : r ∈ Network.reply label e) :
    ∃ fromAddr msg via addr resp, label.job = .handle fromAddr msg (some via) ∧
      e = .sendResponse addr resp ∧ r = ⟨via.node, via.request, label.node, resp⟩ := by
  unfold Network.reply at h
  split at h
  next hjob => exact ⟨_, _, _, _, _, hjob, rfl, List.mem_singleton.mp h⟩
  next => cases h

theorem deliver_some {s : NetState ν} {src dst node : ν} {request : Nat} {job : Job ν}
    (h : net.job s (.deliver src request dst) = some (node, job)) :
    ∃ out msg, (s.nodes src).requests[request]? = some out ∧ net.addr dst ∈ out.addrs ∧
      net.transmit src dst out.msg = some msg ∧ node = dst ∧
      job = .handle (net.addr src) msg (some ⟨src, request, out.origin⟩) := by
  simp only [Network.job] at h
  split at h
  · cases h
  next out hout =>
    split at h
    next hdst =>
      obtain ⟨msg, hmsg, hjob⟩ := Option.map_eq_some_iff.mp h
      cases hjob
      exact ⟨out, msg, hout, hdst, hmsg, rfl, rfl⟩
    next => cases h

end

section

variable {ν : Type} [DecidableEq ν] (net : Network ν)

/-- The nodes know good peers only, and each task knows the requests that it made. -/
structure Sound (Good : ν → NodeInfo → Prop) (s : NetState ν) (gs : List (Label ν × Requests)) :
    Prop where
  nodes : ∀ v, NodeGood (Good v) (s.nodes v)
  linked : ∀ t ∈ gs, ∀ n out, t.2 n = some out → (s.nodes t.1.node).requests[n]? = some out

theorem begun_nodes (s : NetState ν) (x : Start ν) (v : ν) :
    (net.begun s x).nodes v = s.nodes v ∨
      ∃ now, (net.begun s x).nodes v = Network.restarted now (net.ctx v) (s.nodes v) := by
  cases x with
  | restart node now =>
    by_cases hv : v = node
    · subst hv
      exact Or.inr ⟨now, Function.update_self v _ _⟩
    · exact Or.inl (Function.update_of_ne hv _ _)
  | _ => exact Or.inl rfl

theorem start_some {x : Start ν} {s s' : NetState ν} {label : Label ν} {t : NodeTask Unit}
    (hx : net.start x s = some (s', label, t)) :
    net.job s x = some (label.node, label.job) ∧ label.id = s.started ∧
      s' = { net.begun s x with started := s.started + 1 } ∧
      t = Network.task (net.ctx label.node) label.job := by
  obtain ⟨⟨node, job⟩, hjob, hstart⟩ := Option.map_eq_some_iff.mp hx
  cases hstart
  exact ⟨hjob, rfl, rfl, rfl⟩

theorem requests_apply (label : Label ν) (e : Op) (input : Input) {s : NetState ν} {v : ν} {n : Nat}
    {out : Outgoing} (h : (s.nodes v).requests[n]? = some out) :
    ((net.apply label e input s).2.nodes v).requests[n]? = some out := by
  have hlt := (List.getElem?_eq_some_iff.mp h).1
  by_cases hv : v = label.node
  · subst hv
    simp only [Network.apply, Function.update_self]
    rcases apply_requests (net.ctx label.node).build (net.ctx label.node).crates.sha256 input e
      (s.nodes label.node) with hreq | ⟨out', -, hreq⟩
    · rw [hreq]
      exact h
    · rw [hreq, List.getElem?_append_left hlt]
      exact h
  · simp only [Network.apply, Function.update_of_ne hv]
    exact h

theorem mem_requests_apply {label : Label ν} {e : Op} {input : Input} {s : NetState ν} {v : ν}
    {out : Outgoing} (h : out ∈ ((net.apply label e input s).2.nodes v).requests) :
    out ∈ (s.nodes v).requests ∨ v = label.node ∧ e = .send out := by
  by_cases hv : v = label.node
  · subst hv
    simp only [Network.apply, Function.update_self] at h
    rcases apply_requests (net.ctx label.node).build (net.ctx label.node).crates.sha256 input e
      (s.nodes label.node) with hreq | ⟨out', rfl, hreq⟩
    · rw [hreq] at h
      exact Or.inl h
    · rw [hreq] at h
      rcases List.mem_append.mp h with h | h
      · exact Or.inl h
      · rw [List.mem_singleton.mp h]
        exact Or.inr ⟨rfl, rfl⟩
  · simp only [Network.apply, Function.update_of_ne hv] at h
    exact Or.inl h

theorem begun_frame (s : NetState ν) (x : Start ν) :
    (∀ v, ((net.begun s x).nodes v).requests = (s.nodes v).requests) ∧
      (net.begun s x).trace = s.trace ∧ (net.begun s x).replies = s.replies := by
  refine ⟨fun v => ?_, ?_⟩
  · rcases begun_nodes net s x v with hv | ⟨now, hv⟩
    · rw [hv]
    · rw [hv]
      rfl
  · cases x <;> exact ⟨rfl, rfl⟩

variable {Good : ν → NodeInfo → Prop} (hstable : ∀ v, Stable (Good v))

include hstable

theorem start_sound {x : Start ν} {s s' : NetState ν} {label : Label ν} {t : NodeTask Unit}
    {gs : List (Label ν × Requests)} (h : Sound Good s gs)
    (hx : net.start x s = some (s', label, t)) :
    Sound Good s' (gs ++ [(label, fun _ => none)]) := by
  obtain ⟨-, -, rfl, -⟩ := start_some net hx
  refine ⟨fun v => ?_, fun t ht n out hout => ?_⟩
  · dsimp only
    rcases begun_nodes net s x v with hv | ⟨now, hv⟩
    · rw [hv]
      exact h.nodes v
    · rw [hv]
      exact restarted_nodeGood (hstable v) now _ (h.nodes v)
  · rcases List.mem_append.mp ht with ht | ht
    · have hreq := h.linked t ht n out hout
      dsimp only
      rcases begun_nodes net s x t.1.node with hv | ⟨now, hv⟩
      · rw [hv]
        exact hreq
      · rw [hv]
        exact hreq
    · rw [List.mem_singleton.mp ht] at hout
      cases hout

variable {T : Label ν → Trust} (hT : ∀ label, (T label).Good = Good label.node)

include hT

theorem apply_sound {label : Label ν} {g : Requests} {e : Op} (input : Input) {s : NetState ν}
    {gs : List (Label ν × Requests)} {i : Nat} (howes : (T label).contract.owes g e)
    (hi : gs[i]? = some (label, g)) (h : Sound Good s gs)
    (hanswer : ∀ request, e = .await request → ∀ out ∈ g request, ∀ msg ∈ input.answer,
      (T label).Reply out msg) :
    (T label).contract.gets g e (net.apply label e input s).1 ∧
      Sound Good (net.apply label e input s).2
        (gs.set i (label, (T label).contract.next g e (net.apply label e input s).1)) := by
  have hlinked := h.linked (label, g) (List.mem_of_getElem? hi)
  have hnode : NodeGood (T label).Good (s.nodes label.node) := by
    rw [hT]
    exact h.nodes label.node
  refine ⟨apply_gets _ _ input hnode hlinked hanswer, fun v => ?_, fun t ht n out hout => ?_⟩
  · by_cases hv : v = label.node
    · subst hv
      simp only [Network.apply, Function.update_self]
      rw [← hT]
      exact apply_nodeGood (by rw [hT]; exact hstable label.node) _ _ input howes hnode
    · simp only [Network.apply, Function.update_of_ne hv]
      exact h.nodes v
  · rcases List.mem_or_eq_of_mem_set ht with ht | rfl
    · exact requests_apply net label e input (h.linked t ht n out hout)
    · cases e with
      | send out' =>
        -- the new request has the next number
        by_cases hn : n = (s.nodes label.node).requests.length
        · subst hn
          have heq : out' = out := Option.some.inj ((Function.update_self _ _ g).symm.trans hout)
          subst heq
          simp only [Network.apply, Function.update_self]
          exact List.getElem?_concat_length
        · exact requests_apply net label _ input
            (hlinked n out ((Function.update_of_ne hn _ g).symm.trans hout))
      | _ => exact requests_apply net label _ input (hlinked n out hout)

end

end TesserasDht.Peers
