import TesserasDht.Store

/-! # The own provider records of a store -/

open Lib.Slices Lib.Lists

namespace TesserasDht.Providers

/-! ## One record -/

/-- The table has an unexpired record of the node for the hash. -/
def Live (now : Nat) (nodeId : NodeId) (rows : List ProviderRow) (hash : Hash) : Prop :=
  ∃ row ∈ rows, row.contentKey = hash ∧ row.nodeId = nodeId ∧ toI64 now < row.expiresAt

theorem mem_getOwnProviders {now : Nat} {nodeId : NodeId} {rows : List ProviderRow} {hash : Hash} :
    hash ∈ getOwnProviders now nodeId rows ↔ Live now nodeId rows hash := by
  simp only [getOwnProviders, List.mem_dedup, List.mem_map, List.mem_filter, decide_eq_true_eq, Live]
  constructor
  · rintro ⟨row, ⟨hrow, hid, hlt⟩, hkey⟩
    exact ⟨row, hrow, hkey, hid, hlt⟩
  · rintro ⟨row, hrow, hkey, hid, hlt⟩
    exact ⟨row, ⟨hrow, hid, hlt⟩, hkey⟩

/-- A record of the time `made` is unexpired at `now`. -/
def Outlives (b : Build) (ttl made now : Nat) : Prop :=
  ∃ e, b.add made ttl = .ok e ∧ toI64 now < toI64 e

section

variable {b : Build} {env : StoreEnv} {now : Nat}

theorem addProvider_live {made ttl : Nat} {key : Hash} {nodeId : NodeId} {publicKey : Bytes32}
    {addresses : List SocketAddr} {rows rows' : List ProviderRow}
    (h : addProvider b made ttl key nodeId publicKey addresses rows = .ok rows') (hash : Hash) :
    Live now nodeId rows' hash ↔
      if hash = key then Outlives b ttl made now else Live now nodeId rows hash := by
  unfold addProvider at h
  cases hadd : b.add made ttl with
  | error e =>
    rw [hadd] at h
    cases h
  | ok e =>
    rw [hadd] at h
    cases h
    unfold Live
    split
    next heq =>
      subst heq
      constructor
      · rintro ⟨row, hrow, hkey, hid, hlt⟩
        rcases List.mem_append.mp hrow with hrow | hrow
        · have := (List.mem_filter.mp hrow).2
          simp [hkey, hid] at this
        · obtain rfl := List.mem_singleton.mp hrow
          exact ⟨e, hadd, hlt⟩
      · rintro ⟨e', he, hlt⟩
        cases hadd.symm.trans he
        exact ⟨_, List.mem_append_right _ (List.mem_singleton_self _), rfl, rfl, hlt⟩
    next hne =>
      constructor
      · rintro ⟨row, hrow, hkey, hid, hlt⟩
        rcases List.mem_append.mp hrow with hrow | hrow
        · exact ⟨row, (List.mem_filter.mp hrow).1, hkey, hid, hlt⟩
        · obtain rfl := List.mem_singleton.mp hrow
          exact absurd hkey.symm hne
      · rintro ⟨row, hrow, hkey, hid, hlt⟩
        refine ⟨row, List.mem_append_left _ (List.mem_filter.mpr ⟨hrow, ?_⟩), hkey, hid, hlt⟩
        simp [hkey, hne]

/-! ## All records -/

/-- The call for the `i`-th chunk returns `Ok`. -/
def Succeeds (b : Build) (env : StoreEnv) (ttl i : Nat) : Prop :=
  env.metadataFails i = false ∧ ∃ e, b.add (env.clock i) ttl = .ok e

/-- Which hashes have an unexpired record after one record for each of `hashes`, from the `i`-th chunk
on. -/
def liveAfter (b : Build) (env : StoreEnv) (ttl now : Nat) : Nat → List Hash → (Hash → Prop) → Hash → Prop
  | _, [], live => live
  | i, hash :: rest, live => liveAfter b env ttl now (i + 1) rest fun other =>
    if other = hash then Outlives b ttl (env.clock i) now else live other

theorem liveAfter_append (ttl i : Nat) (hashes more : List Hash) (live : Hash → Prop) :
    liveAfter b env ttl now i (hashes ++ more) live =
      liveAfter b env ttl now (i + hashes.length) more (liveAfter b env ttl now i hashes live) := by
  induction hashes generalizing i live with
  | nil => rfl
  | cons hash rest ih =>
    rw [List.cons_append, liveAfter, liveAfter, ih, List.length_cons, show i + 1 + rest.length =
      i + (rest.length + 1) by omega]

theorem liveAfter_of_not_mem (ttl i : Nat) (hashes : List Hash) (live : Hash → Prop) (hash : Hash)
    (h : hash ∉ hashes) : liveAfter b env ttl now i hashes live hash ↔ live hash := by
  induction hashes generalizing i live with
  | nil => rfl
  | cons x rest ih =>
    obtain ⟨hne, hrest⟩ := not_or.mp (List.mem_cons.not.mp h)
    rw [liveAfter, ih _ _ hrest, if_neg hne]

theorem liveAfter_of_last (ttl i : Nat) (hashes : List Hash) (live : Hash → Prop) (hash : Hash) (j : Nat)
    (hj : hashes[j]? = some hash) (hlast : ∀ k, j < k → hashes[k]? ≠ some hash) :
    liveAfter b env ttl now i hashes live hash ↔ Outlives b ttl (env.clock (i + j)) now := by
  induction hashes generalizing i live j with
  | nil => cases hj
  | cons x rest ih =>
    rw [liveAfter]
    cases j with
    | zero =>
      obtain rfl : x = hash := Option.some.inj hj
      have hnot : x ∉ rest := by
        intro hmem
        obtain ⟨k, hk⟩ := List.getElem?_of_mem hmem
        exact hlast (k + 1) (by omega) hk
      rw [liveAfter_of_not_mem _ _ _ _ _ hnot, if_pos rfl, Nat.add_zero]
    | succ j =>
      rw [ih (i + 1) _ j hj (fun k hk => hlast (k + 1) (by omega))]
      rw [show i + 1 + j = i + (j + 1) by omega]

/-! ## The records of a store -/

/-- `node'` is `node` after one record for each of `hashes`. -/
structure Recorded (b : Build) (env : StoreEnv) (now i : Nat) (hashes : List Hash) (node node' : Node) :
    Prop where
  nodeId : node'.nodeId = node.nodeId
  config : node'.config = node.config
  live : ∀ hash, Live now node'.nodeId node'.providers hash ↔
    liveAfter b env node.config.providerTtl now i hashes (Live now node.nodeId node.providers) hash

theorem Recorded.refl (i : Nat) (node : Node) : Recorded b env now i [] node node :=
  ⟨rfl, rfl, fun _ => Iff.rfl⟩

theorem Recorded.append {i : Nat} {hashes more : List Hash} {n₀ n₁ n₂ : Node}
    (h : Recorded b env now i hashes n₀ n₁)
    (h' : Recorded b env now (i + hashes.length) more n₁ n₂) :
    Recorded b env now i (hashes ++ more) n₀ n₂ := by
  refine ⟨h'.nodeId.trans h.nodeId, h'.config.trans h.config, ?_⟩
  intro hash
  have hlive : Live now n₁.nodeId n₁.providers =
      liveAfter b env n₀.config.providerTtl now i hashes (Live now n₀.nodeId n₀.providers) :=
    funext fun x => propext (h.live x)
  rw [h'.live hash, h.config, hlive, liveAfter_append]

theorem recordProvider_recorded {i : Nat} {node : Node} (h : Succeeds b env node.config.providerTtl i)
    (hash : Hash) : Recorded b env now i [hash] node (recordProvider b env i hash node) := by
  obtain ⟨hok, e, he⟩ := h
  unfold recordProvider
  rw [if_neg (by rw [hok]; exact Bool.false_ne_true)]
  split
  next providers hadd => exact ⟨rfl, rfl, addProvider_live hadd⟩
  next hadd =>
    unfold addProvider at hadd
    rw [he] at hadd
    cases hadd

theorem recordProviders_recorded (i : Nat) (hashes : List Hash) (node : Node)
    (h : ∀ j < i + hashes.length, Succeeds b env node.config.providerTtl j) :
    Recorded b env now i hashes node (recordProviders b env i hashes node) := by
  induction hashes generalizing i node with
  | nil => exact Recorded.refl i node
  | cons hash rest ih =>
    rw [List.length_cons] at h
    have hone : Recorded b env now i [hash] node (recordProvider b env i hash node) :=
      recordProvider_recorded (h i (by omega)) hash
    apply hone.append
    apply ih
    intro j hj
    rw [List.length_singleton] at hj
    rw [hone.config]
    exact h j (by omega)

section

variable {rs : ReedSolomon} {sha256 : Bytes → Hash} {codec : Codec}

theorem putChunks_recorded {i j : Nat} {chunks : List (Hash × Bytes)} {node node' : Node}
    (h : putChunks sha256 b env i chunks node = (.ok (), node')) :
    Recorded b env now j [] node node' := by
  induction chunks generalizing i node with
  | nil =>
    cases h
    exact Recorded.refl j _
  | cons c rest ih =>
    rw [putChunks] at h
    split at h
    · cases h
    next chunks hput =>
      have hrest := ih h
      exact ⟨hrest.nodeId, hrest.config, hrest.live⟩

theorem encode_hashes {data : Bytes} {config : ErasureConfig} {enc : EncodedTessera}
    (h : encode rs sha256 b data config = .ok enc) : enc.chunkHashes = enc.chunks.map sha256 := by
  unfold encode at h
  simp only [bind, Except.bind] at h
  repeat' split at h
  all_goals cases h
  rfl

theorem storeBlock_recorded {data : Bytes} {config : ErasureConfig} {enc : EncodedTessera}
    {st st' : StoreState} (henc : encode rs sha256 b data config = .ok enc)
    (h : storeBlock sha256 b env enc st = (.ok (), st'))
    (hmeta : ∀ j < st'.chunkHashes.length, Succeeds b env st.node.config.providerTtl j) :
    Recorded b env now st.chunkHashes.length enc.chunkHashes st.node st'.node := by
  obtain ⟨node, hput, hnode, hhashes⟩ := Store.storeBlock_ok h
  have hzip : (enc.chunkHashes.zip enc.chunks).map Prod.fst = enc.chunkHashes := by
    rw [encode_hashes henc, List.map_fst_zip (by rw [List.length_map])]
  have hputs : Recorded b env now st.chunkHashes.length [] st.node node := putChunks_recorded hput
  rw [hnode, hzip]
  apply hputs.append
  apply recordProviders_recorded
  intro j hj
  rw [hputs.config]
  apply hmeta
  rwa [hhashes, List.length_append]

theorem storeBlocks_recorded {data : Bytes} {config : ErasureConfig} {blockSize : Nat} (is : List Nat)
    (st st' : StoreState)
    (h : storeBlocks rs sha256 b env data config blockSize is st = (.ok (), st'))
    (hmeta : ∀ j < st'.chunkHashes.length, Succeeds b env st.node.config.providerTtl j) :
    ∃ hashes, st'.chunkHashes = st.chunkHashes ++ hashes ∧
      Recorded b env now st.chunkHashes.length hashes st.node st'.node := by
  induction is generalizing st with
  | nil =>
    cases h
    exact ⟨[], (List.append_nil _).symm, Recorded.refl _ _⟩
  | cons i is ih =>
    obtain ⟨enc, st₁, henc, hblock, hrest⟩ := Store.storeBlocks_cons_ok h
    obtain ⟨-, -, -, hst₁⟩ := Store.storeBlock_ok hblock
    obtain ⟨blocks, -, hst'⟩ := Store.storeBlocks_ok _ _ _ _ _ _ hrest
    have hone : Recorded b env now st.chunkHashes.length enc.chunkHashes st.node st₁.node := by
      apply storeBlock_recorded henc hblock
      intro j hj
      apply hmeta
      rw [hst', List.length_append]
      omega
    obtain ⟨hashes, hhashes, hrec⟩ := ih st₁ hrest (by rw [hone.config]; exact hmeta)
    refine ⟨enc.chunkHashes ++ hashes, ?_, ?_⟩
    · rw [hhashes, hst₁, List.append_assoc]
    · rw [hst₁, List.length_append] at hrec
      exact hone.append hrec

theorem doStoreTessera_recorded {node : Node} {data : VecU8} {config : ErasureConfig}
    {r : StoreTesseraResult} {st : StoreState}
    (h : doStoreTessera rs sha256 codec b env node data config = (.ok r, st))
    (hmeta : ∀ j < r.chunkHashes.length, Succeeds b env node.config.providerTtl j) (now : Nat)
    (hash : Hash) :
    Live now st.node.nodeId st.node.providers hash ↔ liveAfter b env node.config.providerTtl now 0
      r.chunkHashes (Live now node.nodeId node.providers) hash := by
  obtain ⟨st', enc, hblocks, -, -, hproviders, hid, rfl⟩ := Store.doStoreTessera_ok h
  obtain ⟨hashes, hhashes, hrec⟩ := storeBlocks_recorded _ _ _ hblocks hmeta
  obtain rfl : st'.chunkHashes = hashes := hhashes
  rw [hproviders, hid]
  exact hrec.live hash

end

end

/-! ## What is announced again -/

/-- For every hash the last of its records is unexpired at `now`. -/
def RecordsLast (b : Build) (env : StoreEnv) (ttl now : Nat) (hashes : List Hash) : Prop :=
  ∀ i hash, hashes[i]? = some hash → (∀ j, i < j → hashes[j]? ≠ some hash) →
    Outlives b ttl (env.clock i) now

/-- `get_own_providers` covers all chunks of a stored tessera and its manifest just when the records
of the chunks last and the manifest is one of the chunks, or had a record before: the store makes none
for it. -/
theorem ownProviders_cover_iff (rs : ReedSolomon) (sha256 : Bytes → Hash) (codec : Codec) (b : Build)
    (env : StoreEnv) (node : Node) (data : VecU8) (config : ErasureConfig) (r : StoreTesseraResult)
    (st : StoreState) (hstore : doStoreTessera rs sha256 codec b env node data config = (.ok r, st))
    (hmeta : ∀ i < (Store.encodedHashes rs sha256 b data config).length,
      Succeeds b env node.config.providerTtl i) (now : Nat) :
    let hashes := Store.encodedHashes rs sha256 b data config
    let manifestHash := sha256 (codec.encodeManifest (storeManifest hashes config data.val.length))
    (∀ hash ∈ r.chunkHashes ++ r.manifestHash.toList,
      hash ∈ getOwnProviders now st.node.nodeId st.node.providers) ↔
    RecordsLast b env node.config.providerTtl now hashes ∧
      (manifestHash ∈ hashes ∨ manifestHash ∈ getOwnProviders now node.nodeId node.providers) := by
  intro hashes manifestHash
  obtain ⟨hr, hm⟩ : r.chunkHashes = hashes ∧ r.manifestHash = some manifestHash :=
    Store.doStoreTessera_hashes hstore
  have hlive := doStoreTessera_recorded hstore (by rw [hr]; exact hmeta) now
  rw [hr] at hlive
  simp only [hr, hm, Option.toList_some, List.mem_append, List.mem_singleton, mem_getOwnProviders]
  constructor
  · intro h
    constructor
    · intro i hash hi hlast
      have := (hlive hash).mp (h hash (Or.inl (List.mem_of_getElem? hi)))
      rwa [liveAfter_of_last _ _ _ _ _ _ hi hlast, Nat.zero_add] at this
    · by_cases hmem : manifestHash ∈ hashes
      · exact Or.inl hmem
      · have := (hlive manifestHash).mp (h manifestHash (Or.inr rfl))
        exact Or.inr ((liveAfter_of_not_mem _ _ _ _ _ hmem).mp this)
  · rintro ⟨hlasts, hmanifest⟩
    have hchunk : ∀ hash ∈ hashes, Live now st.node.nodeId st.node.providers hash := by
      intro hash hmem
      obtain ⟨i, hi, hlast⟩ := exists_last hashes hash hmem
      rw [hlive, liveAfter_of_last _ _ _ _ _ _ hi hlast, Nat.zero_add]
      exact hlasts i hash hi hlast
    rintro hash (hmem | rfl)
    · exact hchunk hash hmem
    · by_cases hmem : manifestHash ∈ hashes
      · exact hchunk _ hmem
      · rw [hlive, liveAfter_of_not_mem _ _ _ _ _ hmem]
        exact hmanifest.resolve_left hmem

theorem still_add (b : Build) (i : Nat) :
    b.add ((Store.still 1000).clock i) (48 * 3600) = .ok 173800 := by
  show b.add 1000 172800 = .ok (1000 + 172800)
  exact b.add_of_lt (by decide)

theorem still_succeeds (b : Build) (i : Nat) : Succeeds b (Store.still 1000) (48 * 3600) i :=
  ⟨rfl, _, still_add b i⟩

/-- A node with a record of the manifest that an earlier run left. -/
def nodeWithRecord : Node :=
  { Store.nodeWith [] with
    providers := [⟨Sha256.digest Store.smallManifest.toVec, Routing.idOf 0, Bytes32.fill 0, [], 5000⟩] }

theorem ownProviders_cover_iff_record : ∃ st,
    doStoreTessera Erasure.copies Sha256.digest (.knowing [] []) .release (Store.still 1000)
      nodeWithRecord ⟨[7], by decide⟩ ⟨1, 1⟩ = (.ok Store.smallResult, st) ∧
    ∀ hash ∈ Store.smallResult.chunkHashes ++ Store.smallResult.manifestHash.toList,
      hash ∈ getOwnProviders 1000 st.node.nodeId st.node.providers := by
  have hfst : (doStoreTessera Erasure.copies Sha256.digest (.knowing [] []) .release
      (Store.still 1000) nodeWithRecord ⟨[7], by decide⟩ ⟨1, 1⟩).1 = .ok Store.smallResult := by
    decide +kernel
  have hstore := Prod.fst_eq_iff.mp hfst
  refine ⟨_, hstore, ?_⟩
  apply (ownProviders_cover_iff _ _ _ _ _ _ _ _ _ _ hstore (fun i _ => still_succeeds _ i) 1000).mpr
  constructor
  · intro i hash _ _
    exact ⟨_, still_add _ i, by decide⟩
  · right
    decide +kernel

/-- A node stores one byte. It has an own record for the chunks and none for the manifest. -/
theorem manifest_has_no_record : ∃ st,
    (∀ i, Succeeds .release (Store.still 1000) (48 * 3600) i) ∧
    doStoreTessera Erasure.copies Sha256.digest (.knowing [] []) .release (Store.still 1000)
      (Store.nodeWith []) ⟨[7], by decide⟩ ⟨1, 1⟩ = (.ok Store.smallResult, st) ∧
    (∀ hash ∈ Store.smallResult.chunkHashes,
      hash ∈ getOwnProviders 1000 st.node.nodeId st.node.providers) ∧
    ∃ hash, Store.smallResult.manifestHash = some hash ∧
      hash ∉ getOwnProviders 1000 st.node.nodeId st.node.providers := by
  refine ⟨_, still_succeeds _, Store.store_small, by decide +kernel, ?_⟩
  exact ⟨Sha256.digest Store.smallManifest.toVec, rfl, by decide +kernel⟩

end TesserasDht.Providers
