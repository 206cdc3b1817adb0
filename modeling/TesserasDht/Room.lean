import TesserasDht.Store

/-! # A store that has room succeeds -/

open Lib.Slices Lib.Formats

namespace TesserasDht.Room

/-- The chunk store takes `n` more bytes. -/
def HasRoom (s : ChunkStore) (n : Nat) : Prop := s.storageUsed + n ≤ s.maxStorage ∧ s.maxStorage < wordSize

/-- Nothing fails on the disk. -/
structure Healthy (env : StoreEnv) : Prop where
  chunks : ∀ i, env.faults i = .none
  manifest : env.manifestFaults = .none

section

variable {rs : ReedSolomon} (sha256 : Bytes → Hash) (codec : Codec) (b : Build) {env : StoreEnv}

theorem HasRoom.mono {s : ChunkStore} {n m : Nat} (h : HasRoom s n) (hle : m ≤ n) : HasRoom s m :=
  ⟨Nat.le_trans (Nat.add_le_add_left hle _) h.1, h.2⟩

/-! ## Chunks -/

theorem put_hasRoom {s : ChunkStore} {data : Bytes} {n : Nat} (hlen : data.length ≤ maxChunkSize)
    (hroom : HasRoom s (data.length + n)) :
    ∃ s', s.put sha256 b .none (sha256 data) data = (.ok (), s') ∧ HasRoom s' n := by
  obtain ⟨hused, hword⟩ := hroom
  have hend := s.putSync_end sha256 b .none (sha256 data) data
  unfold ChunkStore.put
  generalize s.putSync sha256 b .none (sha256 data) data = r at hend ⊢
  cases hend with
  | refused e h =>
    rcases h with hlong | hsha
    · omega
    · exact absurd rfl hsha
  | stored => exact ⟨s, rfl, by omega, hword⟩
  | overflow e _ _ _ hadd =>
    rw [b.add_of_lt (by omega)] at hadd
    cases hadd
  | rolledBack e sum _ _ _ hadd hwhy =>
    rw [b.add_of_lt (by omega)] at hadd
    cases hadd
    rcases hwhy with hfull | hdir | hopen
    · omega
    · cases hdir
    · cases hopen
  | cut _ _ _ _ _ _ _ _ _ hwrite => cases hwrite
  | done =>
    refine ⟨_, rfl, ?_, hword⟩
    have hsum : fetchAdd s.storageUsed data.length = s.storageUsed + data.length := fetchAdd_of_lt (by omega)
    change fetchAdd s.storageUsed data.length + n ≤ s.maxStorage
    omega

theorem putChunks_hasRoom (henv : Healthy env) (chunks : List Bytes)
    (hlen : ∀ c ∈ chunks, c.length ≤ maxChunkSize) {i n : Nat} {node : Node}
    (hroom : HasRoom node.chunks ((chunks.map List.length).sum + n)) :
    ∃ node', putChunks sha256 b env i (chunks.map fun c => (sha256 c, c)) node = (.ok (), node') ∧
      HasRoom node'.chunks n := by
  induction chunks generalizing i node with
  | nil => exact ⟨node, rfl, hroom.mono (by simp)⟩
  | cons c chunks ih =>
    rw [List.map_cons, List.sum_cons, Nat.add_assoc] at hroom
    obtain ⟨s', hput, hrest⟩ := put_hasRoom sha256 b (hlen c List.mem_cons_self) hroom
    have hrest : HasRoom ({ node with chunks := s' } : Node).chunks _ := hrest
    obtain ⟨node', hputs, hleft⟩ := ih (fun c' hc' => hlen c' (List.mem_cons_of_mem _ hc')) (i := i + 1) hrest
    refine ⟨node', ?_, hleft⟩
    rw [List.map_cons, putChunks, henv.chunks, hput]
    exact hputs

theorem recordProviders_chunks (i : Nat) (hashes : List Hash) (node : Node) :
    (recordProviders b env i hashes node).chunks = node.chunks := by
  induction hashes generalizing i node with
  | nil => rfl
  | cons hash hashes ih =>
    rw [recordProviders, ih]
    unfold recordProvider
    split
    · rfl
    · split <;> rfl

/-! ## Blocks -/

/-- A block that is handed to the store: the hashes are those of the chunks, which are small and have `m` bytes
in all. -/
structure Fits (sha256 : Bytes → Hash) (encoded : EncodedTessera) (m : Nat) : Prop where
  hashes : encoded.chunkHashes = encoded.chunks.map sha256
  small : ∀ c ∈ encoded.chunks, c.length ≤ maxChunkSize
  total : (encoded.chunks.map List.length).sum ≤ m

theorem storeBlock_hasRoom (henv : Healthy env) {encoded : EncodedTessera} {m n : Nat}
    (hfits : Fits sha256 encoded m) {st : StoreState} (hroom : HasRoom st.node.chunks (m + n)) :
    ∃ st', storeBlock sha256 b env encoded st = (.ok (), st') ∧ HasRoom st'.node.chunks n := by
  have hpairs : encoded.chunkHashes.zip encoded.chunks = encoded.chunks.map fun c => (sha256 c, c) := by
    rw [hfits.hashes]
    have hmap := List.zip_map' (f := sha256) (g := id) (l := encoded.chunks)
    rwa [List.map_id] at hmap
  obtain ⟨node', hput, hleft⟩ := putChunks_hasRoom sha256 b henv encoded.chunks hfits.small
    (i := st.chunkHashes.length) (hroom.mono (Nat.add_le_add_right hfits.total n))
  unfold storeBlock
  dsimp only
  rw [hpairs, hput]
  refine ⟨_, rfl, ?_⟩
  change HasRoom (recordProviders b env _ _ node').chunks n
  rwa [recordProviders_chunks]

theorem storeBlocks_hasRoom (henv : Healthy env) {data : Bytes} {config : ErasureConfig} {blockSize m n : Nat}
    (is : List Nat) (hblocks : ∀ i ∈ is, ∃ encoded,
      encode rs sha256 b (sliceAt data blockSize i) config = .ok encoded ∧ Fits sha256 encoded m)
    {st : StoreState} (hroom : HasRoom st.node.chunks (is.length * m + n)) :
    ∃ st', storeBlocks rs sha256 b env data config blockSize is st = (.ok (), st') ∧ HasRoom st'.node.chunks n := by
  induction is generalizing st with
  | nil => exact ⟨st, rfl, hroom.mono (by simp)⟩
  | cons i is ih =>
    rw [List.length_cons, Nat.succ_mul, Nat.add_comm (is.length * m), Nat.add_assoc] at hroom
    obtain ⟨encoded, hencode, hfits⟩ := hblocks i List.mem_cons_self
    obtain ⟨st₁, hblock, hroom₁⟩ := storeBlock_hasRoom sha256 b henv hfits hroom
    obtain ⟨st', hrest, hleft⟩ := ih (fun j hj => hblocks j (List.mem_cons_of_mem _ hj)) hroom₁
    refine ⟨st', ?_, hleft⟩
    rw [storeBlocks, hencode]
    dsimp only
    rw [hblock]
    exact hrest

theorem block_fits {config : ErasureConfig} (h : Erasure.Valid rs config) {data : Bytes} (hne : data ≠ [])
    (hlen : data.length ≤ defaultBlockSize) : ∃ encoded, encode rs sha256 b data config = .ok encoded ∧
      Fits sha256 encoded ((config.dataShards.toNat + config.parityShards.toNat) *
        divCeil defaultBlockSize config.dataShards.toNat) := by
  obtain ⟨-, filled, -, hfilled, -, hchunks, -, heq⟩ := Erasure.encode_eq sha256 b h data hne
  have hsize := divCeil_mono config.dataShards.toNat h.data_pos hlen
  have hsmall : divCeil defaultBlockSize config.dataShards.toNat ≤ maxChunkSize := by
    have hle := divCeil_le defaultBlockSize config.dataShards.toNat h.data_pos
    unfold defaultBlockSize at hle ⊢
    unfold maxChunkSize
    omega
  refine ⟨_, heq, rfl, fun c hc => ?_, ?_⟩
  · rw [hchunks c hc]
    omega
  · have hsum := List.sum_le_card_nsmul ((Erasure.dataShards data config.dataShards.toNat ++ filled).map List.length)
      (divCeil defaultBlockSize config.dataShards.toNat) (by
        intro l hl
        obtain ⟨c, hc, rfl⟩ := List.mem_map.mp hl
        rw [hchunks c hc]
        exact hsize)
    rwa [List.length_map, List.length_append, Erasure.dataShards_length, hfilled, smul_eq_mul] at hsum

/-! ## The whole store -/

theorem awaitRequests_chunks (st : StoreState) : (awaitRequests env st).node.chunks = st.node.chunks := rfl

theorem awaitRequests_hashes (st : StoreState) : (awaitRequests env st).chunkHashes = st.chunkHashes := rfl

theorem doStoreTessera_hasRoom {config : ErasureConfig} (h : Erasure.Valid rs config) (henv : Healthy env)
    {data : VecU8} (hne : data.val ≠ []) {node : Node} {m : Nat} (hm : m ≤ maxChunkSize)
    (hmanifest : (codec.encodeManifest (storeManifest (Store.encodedHashes rs sha256 b data config) config
      data.val.length)).length ≤ m)
    (hroom : HasRoom node.chunks (divCeil data.val.length defaultBlockSize *
      ((config.dataShards.toNat + config.parityShards.toNat) *
        divCeil defaultBlockSize config.dataShards.toNat) + m)) :
    ∃ r st, doStoreTessera rs sha256 codec b env node data config = (.ok r, st) := by
  have hslices : ∀ i ∈ List.range (divCeil data.val.length defaultBlockSize), ∃ encoded,
      encode rs sha256 b (sliceAt data defaultBlockSize i) config = .ok encoded ∧
        Fits sha256 encoded ((config.dataShards.toNat + config.parityShards.toNat) *
          divCeil defaultBlockSize config.dataShards.toNat) := by
    intro i hi
    apply block_fits sha256 b h
    · exact (Erasure.sliceAt_length data defaultBlockSize i hne Store.defaultBlockSize_pos (List.mem_range.mp hi)).2
    · rw [Erasure.sliceAt_eq, slice_length]
      exact Nat.min_le_left ..
  have hroom : HasRoom (StoreState.mk node [] [] []).node.chunks
      ((List.range (divCeil data.val.length defaultBlockSize)).length *
        ((config.dataShards.toNat + config.parityShards.toNat) *
          divCeil defaultBlockSize config.dataShards.toNat) + m) := by rwa [List.length_range]
  obtain ⟨st, hblocks, hleft⟩ := storeBlocks_hasRoom sha256 b henv _ hslices hroom
  have hhashes : st.chunkHashes = Store.encodedHashes rs sha256 b data config := by
    obtain ⟨blocks, hmap, heq⟩ := Store.storeBlocks_ok _ _ _ _ _ _ hblocks
    rw [heq, List.nil_append]
    unfold Store.encodedHashes encodeBlocks
    simp only [hne, if_false, Nat.ne_of_gt Store.defaultBlockSize_pos, pure, Except.pure, bind, Except.bind, hmap]
  rw [← hhashes] at hmanifest
  obtain ⟨s', hput, -⟩ := put_hasRoom sha256 b (n := 0) (Nat.le_trans hmanifest hm) (hleft.mono hmanifest)
  unfold doStoreTessera
  dsimp only
  rw [if_neg hne, hblocks]
  dsimp only
  rw [awaitRequests_chunks, awaitRequests_hashes, henv.manifest, hput]
  exact ⟨_, _, rfl⟩

end

end TesserasDht.Room
