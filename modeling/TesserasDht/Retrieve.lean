import Mathlib.Data.Set.Function
import TesserasDht.Erasure
import TesserasDht.Store

/-! # A stored tessera comes back -/

open Lib.Slices Lib.Lists

namespace TesserasDht.Retrieve

/-! ## One chunk -/

section

variable {sha256 : Bytes → Hash} {b : Build} {net : Net}

theorem get_some {io : ChunkStore.Faults} {s s' : ChunkStore} {hash : Hash} {x : Bytes}
    (h : s.get sha256 io hash = (.ok (some x), s')) :
    sha256 x = hash ∧ ∃ f ∈ s.dir.files, f.content = x := by
  unfold ChunkStore.get ChunkStore.getSync at h
  cases hf : s.dir.lookup hash with
  | none =>
    rw [hf] at h
    cases h
  | some f =>
    simp only [hf] at h
    split at h
    · cases h
    · split at h
      · cases h
      next hhash =>
        cases h
        exact ⟨not_not.mp hhash, f, (Lib.Files.Dir.lookup_some.mp hf).1, rfl⟩

theorem checkAnswer_some {hash : Hash} {data x : Bytes} :
    checkAnswer sha256 hash data = some x ↔ data = x ∧ x ≠ [] ∧ sha256 x = hash := by
  unfold checkAnswer
  split
  next h => simp only [Option.some.injEq]; exact ⟨fun he => ⟨he, he ▸ h⟩, fun he => he.1⟩
  next h =>
    simp only [reduceCtorEq, false_iff]
    rintro ⟨rfl, hx⟩
    exact h hx

theorem firstAnswer_some {i : Nat} {hash : Hash} {peers : List NodeInfo} {x : Bytes}
    (h : firstAnswer sha256 net i hash peers = some x) :
    sha256 x = hash ∧ ∃ peer, net.answer i peer = some x := by
  obtain ⟨peer, -, hpeer⟩ := List.exists_of_findSome?_eq_some h
  obtain ⟨data, hdata, hcheck⟩ := Option.bind_eq_some_iff.mp hpeer
  obtain ⟨rfl, -, hhash⟩ := checkAnswer_some.mp hcheck
  exact ⟨hhash, peer, hdata⟩

/-- One answer of the right hash is enough, in whatever order the answers come. -/
theorem firstAnswer_isSome {i : Nat} {hash : Hash} {peers : List NodeInfo} {peer : NodeInfo}
    (hpeer : peer ∈ peers) {x : Bytes} (hx : net.answer i peer = some x) (hne : x ≠ [])
    (hhash : sha256 x = hash) : (firstAnswer sha256 net i hash peers).isSome := by
  apply List.findSome?_isSome_iff.mpr
  refine ⟨peer, (net.order_perm i peers).mem_iff.mpr hpeer, ?_⟩
  rw [hx, Option.bind_some, checkAnswer_some.mpr ⟨rfl, hne, hhash⟩]
  rfl

theorem fetchChunk_some {i : Nat} {hash : Hash} {node : Node} {x : Bytes}
    (h : (fetchChunk sha256 b net i hash node).1 = some x) :
    sha256 x = hash ∧ ((∃ f ∈ (net.meanwhile i node).chunks.dir.files, f.content = x) ∨
      ∃ peer, net.answer i peer = some x) := by
  unfold fetchChunk at h
  dsimp only at h
  split at h
  next data chunks hget =>
    cases h
    obtain ⟨hhash, hfile⟩ := get_some hget
    exact ⟨hhash, Or.inl hfile⟩
  next =>
    split at h
    next data hanswer =>
      cases h
      obtain ⟨hhash, hpeer⟩ := firstAnswer_some hanswer
      exact ⟨hhash, Or.inr hpeer⟩
    next => cases h

/-- A chunk that `node` can get: the local store has it, or a peer that is asked answers bytes of the
hash. -/
def Obtainable (sha256 : Bytes → Hash) (net : Net) (node : Node) (i : Nat) (hash : Hash) : Prop :=
  (∃ x, (node.chunks.get sha256 (net.faults i) hash).1 = .ok (some x)) ∨
    ∃ peer ∈ node.queried hash, ∃ x, net.answer i peer = some x ∧ sha256 x = hash

theorem fetchChunk_isSome {i : Nat} {hash : Hash} {node : Node}
    (h : Obtainable sha256 net (net.meanwhile i node) i hash)
    (hne : ∀ peer, net.answer i peer = some [] → sha256 [] ≠ hash) :
    (fetchChunk sha256 b net i hash node).1.isSome := by
  unfold fetchChunk
  dsimp only
  split
  next => rfl
  next r chunks hnot hget =>
    rcases h with ⟨x, hx⟩ | ⟨peer, hpeer, x, hx, hhash⟩
    · rw [hget] at hx
      exact (hnot x hx).elim
    · have hx' : x ≠ [] := by
        rintro rfl
        exact hne peer hx hhash
      obtain ⟨data, hdata⟩ := Option.isSome_iff_exists.mp (firstAnswer_isSome hpeer hx hx' hhash)
      have hsame : firstAnswer sha256 net i hash
        (Node.queried { net.meanwhile i node with chunks } hash) = some data := hdata
      rw [hsame]
      rfl

end

/-! ## All chunks -/

section

variable (sha256 : Bytes → Hash) (b : Build) (net : Net)

/-- The node as it is when chunk `j` is looked for. -/
def nodeAt (hashes : List Hash) (node : Node) (j : Nat) : Node :=
  net.meanwhile j (fetchChunks sha256 b net 0 (hashes.take j) node).2

/-- The bytes whose hashes are compared: the chunks, the answers, and the local files. -/
def Involved (hashes : List Hash) (node : Node) (chunks : List Bytes) : Set Bytes :=
  { x | x ∈ chunks ∨ (∃ i peer, net.answer i peer = some x) ∨
    ∃ i, ∃ f ∈ (nodeAt sha256 b net hashes node i).chunks.dir.files, f.content = x }

variable {sha256 b net}

theorem nodeAt_of_le (hquiet : ∀ i n, net.meanwhile i n = n) {hashes : List Hash} {j : Nat} (h : hashes.length ≤ j)
    (node : Node) : nodeAt sha256 b net hashes node j = (fetchChunks sha256 b net 0 hashes node).2 := by
  rw [nodeAt, hquiet, List.take_of_length_le h]

theorem fetchChunks_getElem? (hashes : List Hash) (i : Nat) (node : Node) (j : Nat) :
    (fetchChunks sha256 b net i hashes node).1[j]? = hashes[j]?.map fun hash =>
      (fetchChunk sha256 b net (i + j) hash
        (fetchChunks sha256 b net i (hashes.take j) node).2).1 := by
  induction hashes generalizing i node j with
  | nil => rfl
  | cons hash rest ih =>
    cases j with
    | zero => rfl
    | succ j =>
      have := ih (i + 1) (fetchChunk sha256 b net i hash node).2 j
      rw [show i + 1 + j = i + (j + 1) by omega] at this
      simpa only [fetchChunks, List.getElem?_cons_succ, List.take_succ_cons] using this

theorem fetchChunks_length (hashes : List Hash) (i : Nat) (node : Node) :
    (fetchChunks sha256 b net i hashes node).1.length = hashes.length := by
  induction hashes generalizing i node with
  | nil => rfl
  | cons hash rest ih => simp only [fetchChunks, List.length_cons, ih]

theorem fetchChunks_some {hashes : List Hash} {node : Node} {j : Nat} {x : Bytes}
    (h : (fetchChunks sha256 b net 0 hashes node).1[j]? = some (some x)) :
    ∃ hash, hashes[j]? = some hash ∧ sha256 x = hash ∧
      ((∃ f ∈ (nodeAt sha256 b net hashes node j).chunks.dir.files, f.content = x) ∨
        ∃ peer, net.answer j peer = some x) := by
  rw [fetchChunks_getElem?, Nat.zero_add] at h
  obtain ⟨hash, hhash, hfetch⟩ := Option.map_eq_some_iff.mp h
  obtain ⟨hx, hfrom⟩ := fetchChunk_some hfetch
  exact ⟨hash, hhash, hx, hfrom⟩

theorem fetchChunks_isSome {hashes : List Hash} {node : Node} {j : Nat} {hash : Hash}
    (hj : hashes[j]? = some hash)
    (h : Obtainable sha256 net (nodeAt sha256 b net hashes node j) j hash)
    (hne : ∀ peer, net.answer j peer = some [] → sha256 [] ≠ hash) :
    ∃ x, (fetchChunks sha256 b net 0 hashes node).1[j]? = some x ∧ x.isSome := by
  refine ⟨_, ?_, fetchChunk_isSome (b := b) h hne⟩
  rw [fetchChunks_getElem?, hj, Nat.zero_add]
  rfl

section

variable {chunks : List Bytes} {node : Node}
  (hinj : Set.InjOn sha256 (Involved sha256 b net (chunks.map sha256) node chunks))

include hinj

/-- Whatever is fetched in place of a chunk is that chunk. -/
theorem fetchChunks_kept :
    Erasure.Kept chunks (fetchChunks sha256 b net 0 (chunks.map sha256) node).1 := by
  apply List.forall₂_iff_get.mpr
  refine ⟨by rw [fetchChunks_length, List.length_map], ?_⟩
  intro j hj hj'
  simp only [List.get_eq_getElem]
  cases hx : (fetchChunks sha256 b net 0 (chunks.map sha256) node).1[j] with
  | none => exact Or.inl rfl
  | some x =>
    have hplace := List.getElem?_eq_some_iff.mpr ⟨hj', hx⟩
    obtain ⟨hash, hhash, hxhash, hfrom⟩ := fetchChunks_some hplace
    rw [List.getElem?_map, List.getElem?_eq_getElem hj] at hhash
    obtain rfl : sha256 chunks[j] = hash := Option.some.inj hhash
    have hinvolved : x ∈ Involved sha256 b net (chunks.map sha256) node chunks := by
      rcases hfrom with hfile | hpeer
      · exact Or.inr (Or.inr ⟨j, hfile⟩)
      · exact Or.inr (Or.inl ⟨j, hpeer⟩)
    rw [hinj hinvolved (Or.inl (List.getElem_mem hj)) hxhash]
    exact Or.inr rfl

theorem empty_answer_ne (hne : ∀ c ∈ chunks, c ≠ []) {j : Nat} {hash : Hash}
    (hj : (chunks.map sha256)[j]? = some hash) :
    ∀ peer, net.answer j peer = some [] → sha256 [] ≠ hash := by
  intro peer hpeer heq
  rw [List.getElem?_map] at hj
  obtain ⟨c, hc, rfl⟩ := Option.map_eq_some_iff.mp hj
  have hmem := List.mem_of_getElem? hc
  exact hne c hmem (hinj (Or.inr (Or.inl ⟨j, peer, hpeer⟩)) (Or.inl hmem) heq).symm

end

end

/-! ## Files that stay -/

section

variable {sha256 : Bytes → Hash} {b : Build} {net : Net}

/-- The file of the name holds bytes of the hash. -/
def Intact (sha256 : Bytes → Hash) (s : ChunkStore) (hash : Hash) (x : Bytes) : Prop :=
  ∃ f, s.dir.lookup hash = some f ∧ f.content = x ∧ sha256 x = hash

theorem get_ok_some {io : ChunkStore.Faults} {s : ChunkStore} {hash : Hash} {x : Bytes} :
    (s.get sha256 io hash).1 = .ok (some x) ↔ io.read = false ∧ Intact sha256 s hash x := by
  unfold ChunkStore.get ChunkStore.getSync Intact
  cases hf : s.dir.lookup hash with
  | none => simp [ChunkStore.joined]
  | some f =>
    cases hread : io.read with
    | true => simp [ChunkStore.joined, fail]
    | false =>
      by_cases hhash : sha256 f.content = hash
      · simp only [Bool.false_eq_true, if_false, hhash, ne_eq, not_true_eq_false,
          ChunkStore.joined, Except.ok.injEq, Option.some.injEq, true_and]
        constructor
        · rintro rfl
          exact ⟨f, rfl, rfl, hhash⟩
        · rintro ⟨g, rfl, rfl, -⟩
          rfl
      · simp only [Bool.false_eq_true, if_false, hhash, ne_eq, not_false_eq_true, if_true,
          ChunkStore.joined, Except.ok.injEq, reduceCtorEq, true_and, false_iff]
        rintro ⟨g, hg, rfl, hx⟩
        cases hg
        exact hhash hx

theorem Intact.get {s : ChunkStore} {hash : Hash} {x : Bytes} (h : Intact sha256 s hash x)
    (io : ChunkStore.Faults) (other : Hash) : Intact sha256 (s.get sha256 io other).2 hash x := by
  obtain ⟨f, hf, hcontent, hhash⟩ := h
  show Intact sha256 (s.getSync sha256 io other).2 hash x
  unfold ChunkStore.getSync
  split
  · exact ⟨f, hf, hcontent, hhash⟩
  next g hg =>
    split
    · exact ⟨f, hf, hcontent, hhash⟩
    · split
      next hbad =>
        -- the file that is removed has another name
        have hne : hash ≠ other := by
          rintro rfl
          cases hf.symm.trans hg
          exact hbad (hcontent ▸ hhash)
        cases io.unlink
        · exact ⟨f, by rw [← hf]; exact Lib.Files.Dir.lookup_unlink_of_ne _ hne, hcontent, hhash⟩
        · exact ⟨f, hf, hcontent, hhash⟩
      · exact ⟨f, hf, hcontent, hhash⟩

theorem putSync_dir (io : ChunkStore.Faults) (s : ChunkStore) (hash : Hash) (data : Bytes) :
    (s.putSync sha256 b io hash data).2.dir = s.dir ∨
    s.dir.lookup hash = none ∧ ∃ written, (s.putSync sha256 b io hash data).2.dir =
      (s.dir.create hash).1.write (s.dir.create hash).2 written := by
  have hend := s.putSync_end sha256 b io hash data
  generalize s.putSync sha256 b io hash data = r at hend ⊢
  cases hend with
  | refused | stored | overflow | rolledBack => exact Or.inl rfl
  | cut _ _ _ _ _ hnew | done _ _ _ hnew => exact Or.inr ⟨hnew, _, rfl⟩

theorem Intact.put {s : ChunkStore} {hash : Hash} {x : Bytes} (h : Intact sha256 s hash x)
    (io : ChunkStore.Faults) (other : Hash) (data : Bytes) :
    Intact sha256 (s.put sha256 b io other data).2 hash x := by
  obtain ⟨f, hf, hcontent, hhash⟩ := h
  refine ⟨f, ?_, hcontent, hhash⟩
  show (s.putSync sha256 b io other data).2.dir.lookup hash = some f
  rcases putSync_dir (b := b) io s other data with hdir | ⟨hnone, written, hdir⟩
  · rw [hdir, hf]
  · rw [hdir]
    exact Lib.Files.Dir.lookup_create_write hf hnone written

section

variable (hquiet : ∀ i node, net.meanwhile i node = node)

include hquiet

theorem fetchChunk_keeps (i : Nat) (other : Hash) (node : Node) :
    (fetchChunk sha256 b net i other node).2.queried = node.queried ∧
    ∀ hash x, Intact sha256 node.chunks hash x →
      Intact sha256 (fetchChunk sha256 b net i other node).2.chunks hash x := by
  unfold fetchChunk
  dsimp only
  rw [hquiet]
  split
  next data chunks hget =>
    refine ⟨rfl, ?_⟩
    intro hash x hx
    have := hx.get (net.faults i) other
    rwa [hget] at this
  next r chunks _ hget =>
    split
    · refine ⟨rfl, ?_⟩
      intro hash x hx
      have := hx.get (net.faults i) other
      rw [hget] at this
      exact this.put _ _ _
    · refine ⟨rfl, ?_⟩
      intro hash x hx
      have := hx.get (net.faults i) other
      rwa [hget] at this

theorem fetchChunks_keeps (hashes : List Hash) (i : Nat) (node : Node) :
    (fetchChunks sha256 b net i hashes node).2.queried = node.queried ∧
    ∀ hash x, Intact sha256 node.chunks hash x →
      Intact sha256 (fetchChunks sha256 b net i hashes node).2.chunks hash x := by
  induction hashes generalizing i node with
  | nil => exact ⟨rfl, fun _ _ hx => hx⟩
  | cons other rest ih =>
    obtain ⟨hq, hkeep⟩ := fetchChunk_keeps (b := b) hquiet i other node
    obtain ⟨hq', hkeep'⟩ := ih (i + 1) (fetchChunk sha256 b net i other node).2
    simp only [fetchChunks]
    exact ⟨hq'.trans hq, fun hash x hx => hkeep' hash x (hkeep hash x hx)⟩

theorem Obtainable.nodeAt {hashes : List Hash} {node : Node} {i : Nat} {hash : Hash}
    (h : Obtainable sha256 net node i hash) :
    Obtainable sha256 net (nodeAt sha256 b net hashes node i) i hash := by
  unfold Retrieve.nodeAt
  rw [hquiet]
  obtain ⟨hq, hkeep⟩ := fetchChunks_keeps (b := b) hquiet (hashes.take i) 0 node
  rcases h with ⟨x, hx⟩ | ⟨peer, hpeer, x, hx⟩
  · obtain ⟨hread, hintact⟩ := get_ok_some.mp hx
    exact Or.inl ⟨x, get_ok_some.mpr ⟨hread, hkeep hash x hintact⟩⟩
  · exact Or.inr ⟨peer, by rw [hq]; exact hpeer, x, hx⟩

end

end

/-! ## The whole way -/

section

variable (rs : ReedSolomon) (sha256 : Bytes → Hash) (b : Build)

/-- The chunks that a store makes of the data. -/
def encodedChunks (data : Bytes) (config : ErasureConfig) : List Bytes :=
  match encodeBlocks rs sha256 b data config defaultBlockSize with
  | .ok enc => enc.blocks.flatMap EncodedTessera.chunks
  | .error _ => []

/-- For every block at least `dataShards` of its chunks can be had, where chunk `i` is looked for at
`at_ i`. -/
def Enough (net : Net) (r : StoreTesseraResult) (at_ : Nat → Node) : Prop :=
  let total := r.config.dataShards.toNat + r.config.parityShards.toNat
  ∀ block < divCeil r.originalLen.toNat r.blockSize.toNat, ∃ js : Finset Nat,
    r.config.dataShards.toNat ≤ js.card ∧ ∀ j ∈ js, j < total ∧
      ∃ hash, r.chunkHashes[block * total + j]? = some hash ∧
        Obtainable sha256 net (at_ (block * total + j)) (block * total + j) hash

end

section

variable {rs : ReedSolomon} {sha256 : Bytes → Hash} {b : Build} {config : ErasureConfig}

/-- The chunks of all blocks, in order, are the ones that the hashes name. -/
theorem blocks_chunkHashes {data : Bytes} {blockSize : Nat} {enc : EncodedBlocks}
    (hspec : Erasure.BlocksSpec rs sha256 b data config blockSize enc) :
    enc.blocks.flatMap EncodedTessera.chunkHashes =
      (enc.blocks.flatMap EncodedTessera.chunks).map sha256 := by
  rw [List.map_flatMap]
  apply List.flatMap_congr
  intro block hblock
  obtain ⟨j, hj, rfl⟩ := List.getElem_of_mem hblock
  have hlen := hspec.blocks.length_eq
  exact (hspec.blocks.get (by omega) hj).hashes

theorem blocks_chunks {data : Bytes} {blockSize : Nat} {enc : EncodedBlocks}
    (hspec : Erasure.BlocksSpec rs sha256 b data config blockSize enc) :
    ∀ block ∈ enc.blocks, block.chunks.length = config.dataShards.toNat + config.parityShards.toNat ∧
      ∀ c ∈ block.chunks, c ≠ [] := by
  intro block hblock
  obtain ⟨j, hj, rfl⟩ := List.getElem_of_mem hblock
  have hlen := hspec.blocks.length_eq
  have hspec' := hspec.blocks.get (by omega) hj
  exact ⟨hspec'.chunks_length, hspec'.chunks_ne⟩

theorem chunks_length {data : Bytes} {blockSize : Nat} {enc : EncodedBlocks}
    (hspec : Erasure.BlocksSpec rs sha256 b data config blockSize enc) :
    (enc.blocks.flatMap EncodedTessera.chunks).length =
      divCeil data.length blockSize * (config.dataShards.toNat + config.parityShards.toNat) := by
  rw [List.flatMap, length_flatten_eq _ (config.dataShards.toNat + config.parityShards.toNat), List.length_map,
    ← hspec.blocks.length_eq, List.length_range]
  intro l hl
  obtain ⟨block, hblock, rfl⟩ := List.mem_map.mp hl
  exact (blocks_chunks hspec block hblock).1

/-- The decode stage on what was fetched gives the data, or an error if a block has too few. -/
theorem decodeStage_gives (h : Erasure.Valid rs config) (data : VecU8) (hne : data.val ≠ [])
    (blockSize : Nat) (hsize : 0 < blockSize) (enc : EncodedBlocks)
    (hspec : Erasure.BlocksSpec rs sha256 b data config blockSize enc) (shards : List (Option Bytes))
    (hkept : Erasure.Kept (enc.blocks.flatMap EncodedTessera.chunks) shards) :
    Erasure.Gives (∃ g ∈ chunks (config.dataShards.toNat + config.parityShards.toNat) shards,
        g.countP Option.isSome < config.dataShards.toNat)
      (decodeStage rs b shards config data.val.length blockSize) data.val := by
  have htotal := h.total_pos
  have hgroups := forall₂_chunks (enc.blocks.map EncodedTessera.chunks) _ htotal (by
    intro l hl
    obtain ⟨block, hblock, rfl⟩ := List.mem_map.mp hl
    exact (blocks_chunks hspec block hblock).1) shards hkept
  rw [List.forall₂_map_left_iff] at hgroups
  unfold decodeStage
  simp only [Nat.ne_of_gt hsize, if_false, h.totalShards b, bind, Except.bind, Nat.ne_of_gt htotal]
  exact Erasure.decodeBlocks_gives h data hne blockSize hsize enc hspec _ hgroups

theorem doRetrieveTessera_inline {codec : Codec} {net manifestNet : Net} {lookup : Node → Node}
    {r : StoreTesseraResult} (hr : r.chunkHashes ≠ []) (node : Node) :
    doRetrieveTessera rs sha256 codec b net manifestNet lookup r node =
      doRetrieveTesseraInner rs sha256 b net r.chunkHashes r.config r.originalLen.toNat
        r.blockSize.toNat node := by
  unfold doRetrieveTessera
  dsimp only
  split
  next mh _ hnil => exact absurd hnil hr
  next => rfl

/-! ## A stored tessera -/

/-- What the result of a store says about the data. -/
structure Stored (rs : ReedSolomon) (sha256 : Bytes → Hash) (b : Build) (data : VecU8)
    (config : ErasureConfig) (r : StoreTesseraResult) (enc : EncodedBlocks) : Prop where
  nonempty : data.val ≠ []
  valid : Erasure.Valid rs config
  spec : Erasure.BlocksSpec rs sha256 b data config defaultBlockSize enc
  chunks : encodedChunks rs sha256 b data config = enc.blocks.flatMap EncodedTessera.chunks
  hashes : r.chunkHashes = (encodedChunks rs sha256 b data config).map sha256
  config_eq : r.config = config
  originalLen : r.originalLen.toNat = data.val.length
  blockSize : r.blockSize.toNat = defaultBlockSize

theorem stored_of_store {codec : Codec} {d p : UInt64} (hnew : ErasureConfig.new b d p = .ok config)
    (hcrate : Erasure.Documented rs d.toNat p.toNat) {data : VecU8} (hne : data.val ≠ [])
    {env : StoreEnv} {before : Node} {r : StoreTesseraResult} {st : StoreState}
    (hstore : doStoreTessera rs sha256 codec b env before data config = (.ok r, st)) :
    ∃ enc, Stored rs sha256 b data config r enc := by
  obtain ⟨st', enc, -, henc, hhashes, -, -, rfl⟩ := Store.doStoreTessera_ok hstore
  have hvalid := Erasure.encodeBlocks_valid hnew hcrate data.val hne _ Store.defaultBlockSize_pos
    enc henc
  obtain ⟨enc', henc', hspec⟩ := Erasure.encodeBlocks_spec (b := b) hvalid data hne _
    Store.defaultBlockSize_pos
  cases henc.symm.trans henc'
  have hchunks : encodedChunks rs sha256 b data config =
      enc.blocks.flatMap EncodedTessera.chunks := by
    unfold encodedChunks
    rw [henc]
  have hsize : (UInt64.ofNat defaultBlockSize).toNat = defaultBlockSize := by decide
  refine ⟨enc, hne, hvalid, hspec, hchunks, ?_, rfl, ?_, hsize⟩
  · rw [hchunks, hhashes, blocks_chunkHashes hspec]
  · exact UInt64.toNat_ofNat_of_lt' (Nat.lt_of_le_of_lt data.property (by decide))

section

variable {data : VecU8} {r : StoreTesseraResult} {enc : EncodedBlocks}
  (hs : Stored rs sha256 b data config r enc)

include hs

theorem Stored.blocks_length :
    enc.blocks.length = divCeil r.originalLen.toNat r.blockSize.toNat := by
  rw [← hs.spec.blocks.length_eq, List.length_range, hs.originalLen, hs.blockSize]

theorem Stored.chunks_length : (encodedChunks rs sha256 b data config).length =
    enc.blocks.length * (config.dataShards.toNat + config.parityShards.toNat) := by
  rw [hs.chunks, Retrieve.chunks_length hs.spec, ← hs.spec.blocks.length_eq, List.length_range]

theorem Stored.chunks_ne : ∀ c ∈ encodedChunks rs sha256 b data config, c ≠ [] := by
  intro c hc
  rw [hs.chunks] at hc
  obtain ⟨block, hblock, hc⟩ := List.mem_flatMap.mp hc
  exact (blocks_chunks hs.spec block hblock).2 c hc

theorem Stored.chunkHashes_ne : r.chunkHashes ≠ [] := by
  intro hnil
  have hlen := congrArg List.length hnil
  have hblocks : 0 < enc.blocks.length := by
    rw [hs.blocks_length, hs.originalLen, hs.blockSize]
    exact divCeil_pos _ _ (List.length_pos_of_ne_nil hs.nonempty) Store.defaultBlockSize_pos
  rw [hs.hashes, List.length_map, hs.chunks_length, List.length_nil] at hlen
  exact Nat.ne_of_gt (Nat.mul_pos hblocks hs.valid.total_pos) hlen

theorem Stored.retrieve {codec : Codec} {net manifestNet : Net} {lookup : Node → Node} (node : Node)
    (hinj : Set.InjOn sha256 (Involved sha256 b net r.chunkHashes node
      (encodedChunks rs sha256 b data config))) :
    Erasure.Gives (∃ g ∈ Lib.Slices.chunks (config.dataShards.toNat + config.parityShards.toNat)
        (fetchChunks sha256 b net 0 r.chunkHashes node).1,
        g.countP Option.isSome < config.dataShards.toNat)
      (doRetrieveTessera rs sha256 codec b net manifestNet lookup r node).1 data.val := by
  rw [doRetrieveTessera_inline hs.chunkHashes_ne]
  simp only [doRetrieveTesseraInner, hs.config_eq, hs.originalLen, hs.blockSize]
  apply decodeStage_gives hs.valid data hs.nonempty _ Store.defaultBlockSize_pos enc hs.spec
  rw [hs.hashes] at hinj ⊢
  rw [← hs.chunks]
  exact fetchChunks_kept hinj

/-- If enough chunks of every block can be had, no group of shards is too small. -/
theorem Stored.groups {net : Net} {node : Node}
    (hinj : Set.InjOn sha256 (Involved sha256 b net r.chunkHashes node
      (encodedChunks rs sha256 b data config)))
    (henough : Enough sha256 net r (nodeAt sha256 b net r.chunkHashes node)) :
    ∀ g ∈ Lib.Slices.chunks (config.dataShards.toNat + config.parityShards.toNat)
      (fetchChunks sha256 b net 0 r.chunkHashes node).1,
      config.dataShards.toNat ≤ g.countP Option.isSome := by
  intro g hg
  obtain ⟨block, hblock, rfl⟩ := List.mem_map.mp hg
  have hlen : (fetchChunks sha256 b net 0 r.chunkHashes node).1.length =
      enc.blocks.length * (config.dataShards.toNat + config.parityShards.toNat) := by
    rw [fetchChunks_length, hs.hashes, List.length_map, hs.chunks_length]
  rw [hlen, divCeil_mul_right _ _ hs.valid.total_pos, List.mem_range, hs.blocks_length] at hblock
  obtain ⟨js, hjs, hall⟩ := henough block hblock
  rw [hs.config_eq] at hjs hall
  refine Nat.le_trans hjs (card_le_countP _ _ js ?_)
  intro j hj
  obtain ⟨hlt, hash, hhash, hobt⟩ := hall j hj
  rw [getElem?_slice _ _ _ _ hlt]
  apply fetchChunks_isSome hhash hobt
  rw [hs.hashes] at hhash hinj
  exact empty_answer_ne hinj hs.chunks_ne hhash

end

end

/-- A tessera that was stored comes back as it was, or not at all, whatever the peers answer, the
local files hold and other tasks do. It comes back if enough chunks of every block can be had when
they are looked for, or when the retrieval starts and nobody else acts. -/
theorem retrieve_stored (rs : ReedSolomon) (sha256 : Bytes → Hash) (codec : Codec) (b : Build)
    (d p : UInt64) (config : ErasureConfig) (hnew : ErasureConfig.new b d p = .ok config)
    (hcrate : Erasure.Documented rs d.toNat p.toNat) (data : VecU8) (hne : data.val ≠ [])
    (env : StoreEnv) (before : Node) (r : StoreTesseraResult) (st : StoreState)
    (hstore : doStoreTessera rs sha256 codec b env before data config = (.ok r, st))
    (net manifestNet : Net) (lookup : Node → Node) (node : Node)
    (hinj : Set.InjOn sha256 (Involved sha256 b net r.chunkHashes node
      (encodedChunks rs sha256 b data config))) :
    let out := (doRetrieveTessera rs sha256 codec b net manifestNet lookup r node).1
    (out = .ok data.val ∨ ∃ e, out = fail e) ∧
    (Enough sha256 net r (nodeAt sha256 b net r.chunkHashes node) → out = .ok data.val) ∧
    ((∀ i n, net.meanwhile i n = n) → Enough sha256 net r (fun _ => node) → out = .ok data.val) := by
  intro out
  obtain ⟨enc, hs⟩ := stored_of_store hnew hcrate hne hstore
  have hgives : Erasure.Gives _ out data.val := hs.retrieve node hinj
  have hwhole : Enough sha256 net r (nodeAt sha256 b net r.chunkHashes node) →
      out = .ok data.val := by
    intro henough
    rcases hgives with h | ⟨⟨g, hg, hfew⟩, -⟩
    · exact h
    · exact absurd (hs.groups hinj henough g hg) (Nat.not_le.mpr hfew)
  refine ⟨hgives.imp_right And.right, hwhole, ?_⟩
  intro hquiet hstart
  apply hwhole
  intro block hblock
  obtain ⟨js, hjs, hall⟩ := hstart block hblock
  refine ⟨js, hjs, ?_⟩
  intro j hj
  obtain ⟨hlt, hash, hhash, hobt⟩ := hall j hj
  exact ⟨hlt, hash, hhash, hobt.nodeAt hquiet⟩

/-- Every peer answers `[9]` for chunk 0 and `[7]` for the others. -/
def lyingNet : Net where
  meanwhile _ node := node
  faults _ := .none
  answer i _ := if i = 0 then some [9] else some [7]
  order _ peers := peers
  order_perm _ _ := List.Perm.refl _

theorem lyingNet_files (i : Nat) : ∀ f ∈ (nodeAt Sha256.digest .release lyingNet
    [Sha256.digest [7], Sha256.digest [7]] (Store.nodeWith [Routing.peerOf 1]) i).chunks.dir.files,
    f.content = [7] := by
  match i with
  | 0 => decide +kernel
  | 1 => decide +kernel
  | i + 2 =>
    rw [nodeAt_of_le (fun _ _ => rfl) (by simp)]
    decide +kernel

theorem lyingNet_injOn : Set.InjOn Sha256.digest (Involved Sha256.digest .release lyingNet
    [Sha256.digest [7], Sha256.digest [7]] (Store.nodeWith [Routing.peerOf 1]) [[7], [7]]) := by
  have hsub : ∀ x, x ∈ Involved Sha256.digest .release lyingNet
      [Sha256.digest [7], Sha256.digest [7]] (Store.nodeWith [Routing.peerOf 1]) [[7], [7]] →
      x = [7] ∨ x = [9] := by
    rintro x (hx | ⟨i, peer, hx⟩ | ⟨i, f, hf, rfl⟩)
    · left
      simpa using hx
    · simp only [lyingNet] at hx
      split at hx <;> cases hx
      · exact Or.inr rfl
      · exact Or.inl rfl
    · exact Or.inl (lyingNet_files i f hf)
  have hne : Sha256.digest [7] ≠ Sha256.digest [9] := by decide +kernel
  intro x hx y hy hxy
  rcases hsub x hx with rfl | rfl <;> rcases hsub y hy with rfl | rfl
  · rfl
  · exact absurd hxy hne
  · exact absurd hxy.symm hne
  · rfl

/-- A node that has nothing gets one chunk from a peer that lied about the other. -/
theorem retrieve_stored_lyingNet : ∃ st,
    doStoreTessera Erasure.copies Sha256.digest (.knowing [] []) .release (Store.still 1000)
      (Store.nodeWith []) ⟨[7], by decide⟩ ⟨1, 1⟩ = (.ok Store.smallResult, st) ∧
    (doRetrieveTessera Erasure.copies Sha256.digest (.knowing [] []) .release lyingNet lyingNet id
      Store.smallResult (Store.nodeWith [Routing.peerOf 1])).1 = .ok [7] := by
  have hchunks : encodedChunks Erasure.copies Sha256.digest .release [7] ⟨1, 1⟩ = [[7], [7]] := by
    decide +kernel
  refine ⟨_, Store.store_small, ?_⟩
  have h := retrieve_stored Erasure.copies Sha256.digest (.knowing [] []) .release 1 1 ⟨1, 1⟩ rfl
    (Erasure.copies_documented 1) ⟨[7], by decide⟩ (by decide) _ _ _ _ Store.store_small lyingNet
    lyingNet id (Store.nodeWith [Routing.peerOf 1]) (by rw [hchunks]; exact lyingNet_injOn)
  apply h.2.2 (fun _ _ => rfl)
  intro block hblock
  obtain rfl : block = 0 := by
    have hone : divCeil Store.smallResult.originalLen.toNat Store.smallResult.blockSize.toNat = 1 := by
      decide
    omega
  refine ⟨{1}, by decide, ?_⟩
  intro j hj
  obtain rfl := Finset.mem_singleton.mp hj
  refine ⟨by decide, Sha256.digest [7], rfl, Or.inr ⟨Routing.peerOf 1, by decide +kernel, [7], rfl, rfl⟩⟩

end TesserasDht.Retrieve
