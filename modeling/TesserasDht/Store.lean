import TesserasDht.Code.Token
import TesserasDht.Erasure
import TesserasDht.Routing

/-! # What a store returns -/

open Lib.Slices

namespace TesserasDht.Store

section

variable {rs : ReedSolomon} {sha256 : Bytes → Hash} {codec : Codec} {b : Build} {env : StoreEnv}

/-! ## One block -/

theorem storeBlock_ok {encoded : EncodedTessera} {st st' : StoreState}
    (h : storeBlock sha256 b env encoded st = (.ok (), st')) :
    ∃ node, putChunks sha256 b env st.chunkHashes.length
        (encoded.chunkHashes.zip encoded.chunks) st.node = (.ok (), node) ∧
      st'.node = recordProviders b env st.chunkHashes.length
        ((encoded.chunkHashes.zip encoded.chunks).map Prod.fst) node ∧
      st'.chunkHashes = st.chunkHashes ++ encoded.chunkHashes := by
  unfold storeBlock at h
  dsimp only at h
  split at h
  · cases h
  next node hput =>
    cases h
    exact ⟨node, hput, rfl, rfl⟩

/-! ## All blocks -/

theorem storeBlocks_cons_ok {data : Bytes} {config : ErasureConfig} {blockSize i : Nat}
    {is : List Nat} {st st' : StoreState}
    (h : storeBlocks rs sha256 b env data config blockSize (i :: is) st = (.ok (), st')) :
    ∃ encoded st₁, encode rs sha256 b (sliceAt data blockSize i) config = .ok encoded ∧
      storeBlock sha256 b env encoded st = (.ok (), st₁) ∧
      storeBlocks rs sha256 b env data config blockSize is st₁ = (.ok (), st') := by
  rw [storeBlocks] at h
  split at h
  · cases h
  · cases h
  next encoded hencode =>
    split at h
    · cases h
    next st₁ hblock => exact ⟨encoded, st₁, hencode, hblock, h⟩

theorem storeBlocks_ok (data : Bytes) (config : ErasureConfig) (blockSize : Nat) (is : List Nat)
    (st st' : StoreState)
    (h : storeBlocks rs sha256 b env data config blockSize is st = (.ok (), st')) :
    ∃ blocks, (is.mapM fun i => encode rs sha256 b (sliceAt data blockSize i) config) = .ok blocks ∧
      st'.chunkHashes = st.chunkHashes ++ blocks.flatMap EncodedTessera.chunkHashes := by
  induction is generalizing st with
  | nil =>
    cases h
    exact ⟨[], rfl, (List.append_nil _).symm⟩
  | cons i is ih =>
    obtain ⟨encoded, st₁, hencode, hblock, hrest⟩ := storeBlocks_cons_ok h
    obtain ⟨blocks, hmap, hhashes⟩ := ih st₁ hrest
    obtain ⟨-, -, -, hst₁⟩ := storeBlock_ok hblock
    refine ⟨encoded :: blocks, ?_, ?_⟩
    · rw [List.mapM_cons, hencode, hmap]
      rfl
    · rw [hhashes, hst₁, List.flatMap_cons, List.append_assoc]

/-! ## The result -/

theorem defaultBlockSize_pos : 0 < defaultBlockSize := by decide

theorem doStoreTessera_ok {node : Node} {data : VecU8} {config : ErasureConfig}
    {r : StoreTesseraResult} {st' : StoreState}
    (h : doStoreTessera rs sha256 codec b env node data config = (.ok r, st')) :
    ∃ st enc, storeBlocks rs sha256 b env data config defaultBlockSize
        (List.range (if data.val = [] then 1 else divCeil data.val.length defaultBlockSize))
        ⟨node, [], [], []⟩ = (.ok (), st) ∧
      encodeBlocks rs sha256 b data config defaultBlockSize = .ok enc ∧
      st.chunkHashes = enc.blocks.flatMap EncodedTessera.chunkHashes ∧
      st'.node.providers = st.node.providers ∧ st'.node.nodeId = st.node.nodeId ∧
      r = { chunkHashes := st.chunkHashes, config, originalLen := .ofNat data.val.length,
            blockSize := .ofNat defaultBlockSize,
            manifestHash := some (sha256 (codec.encodeManifest
              (storeManifest st.chunkHashes config data.val.length))) } := by
  unfold doStoreTessera at h
  dsimp only at h
  split at h
  · cases h
  next st hblocks =>
    obtain ⟨blocks, hmap, hhashes⟩ := storeBlocks_ok _ _ _ _ _ _ hblocks
    rw [List.nil_append] at hhashes
    split at h
    · cases h
    next chunks hput =>
      cases h
      refine ⟨st, ⟨blocks, defaultBlockSize, data.val.length⟩, hblocks, ?_, hhashes, rfl, rfl, ?_⟩
      · unfold encodeBlocks
        by_cases hnil : data.val = []
        · rw [if_pos hnil] at hmap ⊢
          simp only [pure, Except.pure, bind, Except.bind, hmap]
        · rw [if_neg hnil] at hmap ⊢
          simp only [Nat.ne_of_gt defaultBlockSize_pos, if_false, pure, Except.pure, bind,
            Except.bind, hmap]
      · rfl

/-- The hashes of the chunks that a store makes of the data. -/
def encodedHashes (rs : ReedSolomon) (sha256 : Bytes → Hash) (b : Build) (data : Bytes)
    (config : ErasureConfig) : List Hash :=
  match encodeBlocks rs sha256 b data config defaultBlockSize with
  | .ok enc => enc.blocks.flatMap EncodedTessera.chunkHashes
  | .error _ => []

theorem doStoreTessera_hashes {node : Node} {data : VecU8} {config : ErasureConfig}
    {r : StoreTesseraResult} {st : StoreState}
    (h : doStoreTessera rs sha256 codec b env node data config = (.ok r, st)) :
    r.chunkHashes = encodedHashes rs sha256 b data config ∧
    r.manifestHash = some (sha256 (codec.encodeManifest
      (storeManifest (encodedHashes rs sha256 b data config) config data.val.length))) := by
  obtain ⟨st', enc, -, henc, hhashes, -, -, rfl⟩ := doStoreTessera_ok h
  unfold encodedHashes
  rw [henc]
  dsimp only
  rw [← hhashes]
  exact ⟨rfl, rfl⟩

end

/-! ## A fresh node -/

/-- A node with an empty store and the default configuration that knows some peers. -/
def nodeWith (peers : List NodeInfo) : Node where
  nodeId := Routing.idOf 0
  publicKey := Bytes32.fill 0
  config := ⟨20, 3, 3, 48 * 3600⟩
  externalAddr := none
  localAddr := .v4 127 0 0 1 4433
  routingTable := peers.foldl (fun t p => match t.insert 0 p with
    | .ok (t, _) => t
    | .error _ => t) (RoutingTable.new 0 (Routing.idOf 0) 20)
  chunks := ChunkStore.new 1000 Lib.Files.Dir.empty
  providers := []

/-- Nothing fails locally, the clock stands still, and no peer answers. -/
def still (now : Nat) : StoreEnv where
  faults _ := .none
  manifestFaults := .none
  clock _ := now
  metadataFails _ := false
  rpc _ := .timedOut

/-- The manifest of a tessera of one byte, in two chunks. -/
def smallManifest : TesseraManifest :=
  ⟨[(Sha256.digest [7]).bytes, (Sha256.digest [7]).bytes], 1, 1, 1, .ofNat defaultBlockSize⟩

/-- The result of storing that byte. -/
def smallResult : StoreTesseraResult :=
  ⟨[Sha256.digest [7], Sha256.digest [7]], ⟨1, 1⟩, 1, .ofNat defaultBlockSize,
    some (Sha256.digest smallManifest.toVec)⟩

theorem store_small :
    doStoreTessera Erasure.copies Sha256.digest (.knowing [] []) .release (still 1000) (nodeWith [])
      ⟨[7], by decide⟩ ⟨1, 1⟩ =
    (.ok smallResult, (doStoreTessera Erasure.copies Sha256.digest (.knowing [] []) .release
      (still 1000) (nodeWith []) ⟨[7], by decide⟩ ⟨1, 1⟩).2) :=
  Prod.fst_eq_iff.mp (by decide +kernel)

end TesserasDht.Store
