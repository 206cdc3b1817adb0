import TesserasDht.Lib.Lists
import TesserasDht.Code.Erasure

/-! # The erasure code gives back what was stored -/

open Lib.Slices Lib.Lists

namespace TesserasDht.Erasure

/-! ## What the crate documents -/

/-- Some shards may be missing, the others are as they were. -/
def Kept (chunks : List Bytes) (shards : List (Option Bytes)) : Prop :=
  List.Forall₂ (fun c s => s = none ∨ s = some c) chunks shards

/-- The documented behaviour of the crate for `d` data and `p` parity shards: `new` refuses more
than 256 shards, `encode` leaves the data shards alone and fills the parity shards, and
`reconstruct` restores every shard from any `d` of them. -/
structure Documented (rs : ReedSolomon) (d p : Nat) : Prop where
  new_ok : 1 ≤ d → 1 ≤ p → d + p ≤ 256 → rs.new d p = .ok ()
  new_refuses : 256 < d + p → ∃ e, rs.new d p = .error e
  encode_ok : rs.new d p = .ok () → ∀ (n : Nat) (data parity : List Bytes), 0 < n →
    data.length = d → parity.length = p → (∀ s ∈ data ++ parity, s.length = n) →
    ∃ filled, rs.encode d p (data ++ parity) = .ok (data ++ filled) ∧
      filled.length = p ∧ ∀ s ∈ filled, s.length = n
  reconstruct_ok : rs.new d p = .ok () → ∀ (n : Nat) (data parity filled : List Bytes), 0 < n →
    data.length = d → parity.length = p → (∀ s ∈ data ++ parity, s.length = n) →
    rs.encode d p (data ++ parity) = .ok (data ++ filled) →
    ∀ shards, Kept (data ++ filled) shards → d ≤ shards.countP Option.isSome →
      rs.reconstruct d p shards = .ok ((data ++ filled).map some)

/-- With one data shard every row of the crate's matrix is `1`, and all shards are copies. -/
def copies : ReedSolomon where
  new d p := if d = 0 ∨ p = 0 ∨ 256 < d + p then .error "bad shard count" else .ok ()
  encode _ _ shards := match shards with
    | [] => .error "too few shards"
    | x :: rest => .ok (x :: rest.map fun _ => x)
  reconstruct _ _ shards := match shards.filterMap id with
    | [] => .error "too few shards"
    | x :: _ => .ok (shards.map fun _ => some x)

theorem Kept.filterMap_const {chunks : List Bytes} {shards : List (Option Bytes)} {x : Bytes}
    (h : Kept chunks shards) (hx : ∀ c ∈ chunks, c = x) : ∀ y ∈ shards.filterMap id, y = x := by
  induction h with
  | nil => simp
  | cons hs _ ih =>
    have htail := ih (fun c hc => hx c (List.mem_cons_of_mem _ hc))
    have hhead := hx _ List.mem_cons_self
    rcases hs with rfl | rfl
    · exact htail
    · intro y hy
      rcases List.mem_cons.mp hy with rfl | hy
      · exact hhead
      · exact htail y hy

theorem copies_documented (p : Nat) : Documented copies 1 p where
  new_ok _ hp hsum := if_neg (by omega)
  new_refuses hsum := ⟨_, if_pos (by omega)⟩
  encode_ok _ n data parity _ hdata hparity hlen := by
    obtain ⟨x, rfl⟩ := List.length_eq_one_iff.mp hdata
    refine ⟨parity.map fun _ => x, rfl, by simpa using hparity, ?_⟩
    intro s hs
    obtain ⟨-, -, rfl⟩ := List.mem_map.mp hs
    exact hlen x List.mem_cons_self
  reconstruct_ok _ n data parity filled _ hdata hparity hlen hencode shards hkept hcount := by
    obtain ⟨x, rfl⟩ := List.length_eq_one_iff.mp hdata
    have hfilled : parity.map (fun _ => x) = filled := by
      have := Except.ok.inj hencode
      simpa using this
    subst hfilled
    have hall : ∀ c ∈ [x] ++ parity.map (fun _ => x), c = x := by simp
    have hconst := Kept.filterMap_const hkept hall
    have hpresent : (shards.filterMap id).length = shards.countP Option.isSome :=
      List.length_filterMap_eq_countP
    -- a present shard is the copied one, and there is one
    cases hsome : shards.filterMap id with
    | nil =>
      rw [hsome, List.length_nil] at hpresent
      omega
    | cons y ys =>
      have hy : y = x := hconst y (by rw [hsome]; exact List.mem_cons_self)
      simp only [copies, hsome, hy, Except.ok.injEq]
      have hkeptLen := hkept.length_eq
      apply List.ext_getElem
      · simp only [List.length_map]
        exact hkeptLen.symm
      · intro i hi hi'
        simp only [List.getElem_map]
        exact congrArg some (hall _ (List.getElem_mem _)).symm

/-! ## Shards of one block -/

theorem sliceAt_eq (data : Bytes) (size i : Nat) : sliceAt data size i = slice size data i := by
  unfold sliceAt slice
  split
  next h =>
    rw [List.take_eq_take_iff, List.length_drop, Nat.add_mul]
    omega
  next h => rw [List.drop_eq_nil_of_le (by omega), List.take_nil]

/-- The bytes of all data shards: the block and its padding. -/
def padded (data : Bytes) (total : Nat) : Bytes := data ++ List.replicate (total - data.length) 0

/-- A shard is a piece of the padded block. -/
theorem shard_eq (data : Bytes) (d size i : Nat) (hi : i < d) (hlen : data.length ≤ d * size) :
    resize (sliceAt data size i) size 0 = slice size (padded data (d * size)) i := by
  have hend : (i + 1) * size ≤ d * size := Nat.mul_le_mul_right _ hi
  rw [Nat.add_mul] at hend
  rw [sliceAt_eq]
  unfold resize slice padded
  rw [List.take_take, Nat.min_self, List.drop_append, List.take_append, List.drop_replicate,
    List.take_replicate, List.length_take, List.length_drop]
  congr 2
  omega

def dataShards (data : Bytes) (d : Nat) : List Bytes :=
  (List.range d).map fun i =>
    resize (sliceAt data (divCeil data.length d) i) (divCeil data.length d) 0

theorem dataShards_length (data : Bytes) (d : Nat) : (dataShards data d).length = d := by
  simp [dataShards]

theorem mem_dataShards_length (data : Bytes) (d : Nat) :
    ∀ s ∈ dataShards data d, s.length = divCeil data.length d := by
  intro s hs
  obtain ⟨i, -, rfl⟩ := List.mem_map.mp hs
  simp only [resize, List.length_append, List.length_take, List.length_replicate]
  omega

theorem dataShards_flatten (data : Bytes) (d : Nat) (hd : 0 < d) :
    (dataShards data d).flatten.take data.length = data := by
  have hle := le_divCeil_mul data.length d hd
  rw [Nat.mul_comm] at hle
  have hshards : dataShards data d =
      (List.range d).map (slice (divCeil data.length d) (padded data (d * divCeil data.length d))) := by
    apply List.map_congr_left
    intro i hi
    exact shard_eq data d _ i (List.mem_range.mp hi) hle
  rw [hshards, flatten_slices, List.take_take, Nat.min_eq_left hle]
  exact List.take_left

/-! ## One block -/

section

variable {rs : ReedSolomon} {sha256 : Bytes → Hash} {b : Build} {config : ErasureConfig}

/-- What a validated configuration whose sum does not wrap gives the rest. -/
structure Valid (rs : ReedSolomon) (config : ErasureConfig) : Prop where
  data_pos : 1 ≤ config.dataShards.toNat
  parity_pos : 1 ≤ config.parityShards.toNat
  sum_le : config.dataShards.toNat + config.parityShards.toNat ≤ 256
  crate : Documented rs config.dataShards.toNat config.parityShards.toNat

theorem Valid.new_ok (h : Valid rs config) :
    rs.new config.dataShards.toNat config.parityShards.toNat = .ok () :=
  h.crate.new_ok h.data_pos h.parity_pos h.sum_le

theorem Valid.total_pos (h : Valid rs config) :
    0 < config.dataShards.toNat + config.parityShards.toNat :=
  Nat.lt_of_lt_of_le h.data_pos (Nat.le_add_right _ _)

theorem Valid.sum_lt (h : Valid rs config) :
    config.dataShards.toNat + config.parityShards.toNat < wordSize :=
  Nat.lt_of_le_of_lt h.sum_le (by decide)

theorem Valid.totalShards (h : Valid rs config) (b : Build) : config.totalShards b =
    .ok (config.dataShards.toNat + config.parityShards.toNat) :=
  b.add_of_lt h.sum_lt

/-- What `decode` does with enough shards when the crate reconstructs them. -/
theorem decode_of_reconstruct (h : Valid rs config) {shards all : List (Option Bytes)}
    (hlen : shards.length = config.dataShards.toNat + config.parityShards.toNat)
    (hcount : config.dataShards.toNat ≤ shards.countP Option.isSome)
    (hrec : rs.reconstruct config.dataShards.toNat config.parityShards.toNat shards = .ok all)
    (len : Nat) :
    decode rs b shards config len = withCapacity len >>= fun _ =>
      .ok (((all.take config.dataShards.toNat).filterMap id).flatten.take len) := by
  unfold decode
  simp only [h.totalShards b, hlen, hrec, h.new_ok, orErasure, bind, Except.bind, ne_eq,
    not_true_eq_false, if_false, Nat.not_lt.mpr hcount]
  rfl

theorem decode_ok {shards : List (Option Bytes)} {len : Nat} {v : Bytes}
    (h : decode rs b shards config len = .ok v) :
    ∃ all, config.totalShards b = .ok shards.length ∧
      config.dataShards.toNat ≤ shards.countP Option.isSome ∧
      rs.reconstruct config.dataShards.toNat config.parityShards.toNat shards = .ok all ∧
      v = ((all.take config.dataShards.toNat).filterMap id).flatten.take len := by
  unfold decode at h
  obtain ⟨total, htotal, h⟩ := bind_ok h
  dsimp only at h
  split at h
  · cases h
  next hlen =>
    split at h
    · cases h
    next hcount =>
      obtain ⟨-, -, h⟩ := bind_ok h
      obtain ⟨all, hrec, h⟩ := bind_ok h
      obtain ⟨-, -, h⟩ := bind_ok h
      cases h
      refine ⟨all, by rw [htotal, not_not.mp hlen], Nat.not_lt.mp hcount, ?_, rfl⟩
      cases hr : rs.reconstruct config.dataShards.toNat config.parityShards.toNat shards with
      | error e =>
        rw [hr] at hrec
        cases hrec
      | ok all' =>
        rw [hr] at hrec
        cases hrec
        rfl

/-- A block that was encoded, and how it decodes. -/
structure BlockSpec (rs : ReedSolomon) (sha256 : Bytes → Hash) (b : Build) (data : Bytes)
    (config : ErasureConfig) (enc : EncodedTessera) : Prop where
  chunks_length : enc.chunks.length = config.dataShards.toNat + config.parityShards.toNat
  chunks_ne : ∀ c ∈ enc.chunks, c ≠ []
  hashes : enc.chunkHashes = enc.chunks.map sha256
  decodes : ∀ shards, Kept enc.chunks shards →
    config.dataShards.toNat ≤ shards.countP Option.isSome →
    decode rs b shards config data.length = .ok data

theorem encode_eq (sha256 : Bytes → Hash) (b : Build) (h : Valid rs config) (data : Bytes) (hne : data ≠ []) :
    ∃ parity filled, parity.length = config.parityShards.toNat ∧ filled.length = config.parityShards.toNat ∧
      (∀ s ∈ dataShards data config.dataShards.toNat ++ parity,
        s.length = divCeil data.length config.dataShards.toNat) ∧
      (∀ c ∈ dataShards data config.dataShards.toNat ++ filled,
        c.length = divCeil data.length config.dataShards.toNat) ∧
      rs.encode config.dataShards.toNat config.parityShards.toNat
        (dataShards data config.dataShards.toNat ++ parity) =
          .ok (dataShards data config.dataShards.toNat ++ filled) ∧
      encode rs sha256 b data config = .ok ⟨dataShards data config.dataShards.toNat ++ filled,
        (dataShards data config.dataShards.toNat ++ filled).map sha256, config, data.length⟩ := by
  have hsize : 0 < divCeil data.length config.dataShards.toNat :=
    divCeil_pos _ _ (List.length_pos_of_ne_nil hne) h.data_pos
  have hparity : (List.replicate config.parityShards.toNat
      (List.replicate (divCeil data.length config.dataShards.toNat) (0 : UInt8))).length =
      config.parityShards.toNat := List.length_replicate
  have hall : ∀ s ∈ dataShards data config.dataShards.toNat ++
      List.replicate config.parityShards.toNat
        (List.replicate (divCeil data.length config.dataShards.toNat) 0),
      s.length = divCeil data.length config.dataShards.toNat := by
    intro s hs
    rcases List.mem_append.mp hs with hs | hs
    · exact mem_dataShards_length data _ s hs
    · rw [List.eq_of_mem_replicate hs, List.length_replicate]
  obtain ⟨filled, hencode, hfl, hfs⟩ := h.crate.encode_ok h.new_ok _ _ _ hsize
    (dataShards_length data _) hparity hall
  have hchunks : ∀ c ∈ dataShards data config.dataShards.toNat ++ filled,
      c.length = divCeil data.length config.dataShards.toNat := by
    intro c hc
    rcases List.mem_append.mp hc with hc | hc
    · exact mem_dataShards_length data _ c hc
    · exact hfs c hc
  refine ⟨_, filled, hparity, hfl, hall, hchunks, hencode, ?_⟩
  unfold encode
  simp only [h.new_ok, h.totalShards b, orErasure]
  have he := hencode
  unfold dataShards at he
  simp only [bind, Except.bind, he]
  rfl

theorem encode_spec (h : Valid rs config) (data : Bytes) (hne : data ≠ [])
    (hvec : data.length ≤ isizeMax) :
    ∃ enc, encode rs sha256 b data config = .ok enc ∧ BlockSpec rs sha256 b data config enc := by
  have hsize : 0 < divCeil data.length config.dataShards.toNat :=
    divCeil_pos _ _ (List.length_pos_of_ne_nil hne) h.data_pos
  obtain ⟨parity, filled, hparity, hfl, hall, hchunks, hencode, heq⟩ := encode_eq sha256 b h data hne
  refine ⟨_, heq, ?_, ?_, rfl, ?_⟩
  · simp only [List.length_append, dataShards_length, hfl]
  · rintro c hc rfl
    have := hchunks [] hc
    simp only [List.length_nil] at this
    omega
  · intro shards hkept hcount
    have hrec := h.crate.reconstruct_ok h.new_ok _ _ _ _ hsize (dataShards_length data _) hparity
      hall hencode shards hkept hcount
    have hlen : shards.length = config.dataShards.toNat + config.parityShards.toNat := by
      rw [← hkept.length_eq, List.length_append, dataShards_length, hfl]
    rw [decode_of_reconstruct h hlen hcount hrec, withCapacity_of_le hvec, ← List.map_take,
      List.take_left' (dataShards_length data _)]
    simp [dataShards_flatten data _ h.data_pos, bind, Except.bind]

theorem decode_insufficient (h : Valid rs config) (shards : List (Option Bytes))
    (hlen : shards.length = config.dataShards.toNat + config.parityShards.toNat)
    (hcount : shards.countP Option.isSome < config.dataShards.toNat) (len : Nat) :
    decode rs b shards config len =
      fail (.insufficientChunks config.dataShards.toNat (shards.countP Option.isSome)) := by
  unfold decode
  simp only [h.totalShards b, hlen, bind, Except.bind, ne_eq, not_true_eq_false, if_false, hcount,
    if_true]

/-- The result is `a`, or an error where errors are allowed. It is never a panic. -/
def Gives {α : Type} (allowed : Prop) (r : Outcome α) (a : α) : Prop :=
  r = .ok a ∨ allowed ∧ ∃ e, r = fail e

theorem BlockSpec.decode_gives (h : Valid rs config) {data : Bytes} {enc : EncodedTessera}
    (hspec : BlockSpec rs sha256 b data config enc) (shards : List (Option Bytes))
    (hkept : Kept enc.chunks shards) :
    Gives (shards.countP Option.isSome < config.dataShards.toNat)
      (decode rs b shards config data.length) data := by
  by_cases hcount : shards.countP Option.isSome < config.dataShards.toNat
  · have hlen : shards.length = config.dataShards.toNat + config.parityShards.toNat := by
      rw [← hkept.length_eq, hspec.chunks_length]
    exact Or.inr ⟨hcount, _, decode_insufficient h shards hlen hcount data.length⟩
  · exact Or.inl (hspec.decodes shards hkept (Nat.le_of_not_lt hcount))

/-! ## Many blocks -/

/-- The length that `decode_blocks` gives block `i` of `n`. -/
def blockLen (n blockSize originalLen i : Nat) : Nat :=
  if i = n - 1 then originalLen - (n - 1) * blockSize else blockSize

theorem decodeBlocksFrom_cons (n blockSize originalLen i : Nat) (shards : List (Option Bytes))
    (rest : List (List (Option Bytes))) (hlast : (n - 1) * blockSize ≤ originalLen)
    (hword : originalLen < wordSize) :
    decodeBlocksFrom rs b config n blockSize originalLen i (shards :: rest) = (do
      let decoded ← decode rs b shards config (blockLen n blockSize originalLen i)
      let result ← decodeBlocksFrom rs b config n blockSize originalLen (i + 1) rest
      return decoded ++ result) := by
  rw [decodeBlocksFrom]
  unfold blockLen
  split
  · simp only [b.mul_of_lt (Nat.lt_of_le_of_lt hlast hword), b.sub_of_le hlast, bind, Except.bind]
  · rfl

theorem decodeBlocksFrom_gives (allowed : Prop) (n blockSize originalLen : Nat)
    (hlast : (n - 1) * blockSize ≤ originalLen) (hword : originalLen < wordSize)
    (blocks : List Bytes) (groups : List (List (Option Bytes))) (i : Nat)
    (hlen : blocks.length = groups.length)
    (hdec : ∀ j (h : j < blocks.length) (h' : j < groups.length), Gives allowed
      (decode rs b groups[j] config (blockLen n blockSize originalLen (i + j))) blocks[j]) :
    Gives allowed (decodeBlocksFrom rs b config n blockSize originalLen i groups)
      blocks.flatten := by
  induction groups generalizing blocks i with
  | nil => rw [List.eq_nil_of_length_eq_zero hlen]; exact Or.inl rfl
  | cons g groups ih => match blocks, hlen with
    | block :: blocks, hlen =>
      have htail := ih blocks (i + 1) (by simpa using hlen) (by
        intro j h h'
        have := hdec (j + 1) (by simpa using h) (by simpa using h')
        rwa [show i + (j + 1) = i + 1 + j by omega] at this)
      have hhead := hdec 0 (by simp) (by simp)
      simp only [Nat.add_zero, List.getElem_cons_zero] at hhead
      rw [decodeBlocksFrom_cons _ _ _ _ _ _ hlast hword]
      -- the first block that fails ends the loop
      rcases hhead with h | ⟨ha, e, h⟩
      · rw [h]
        rcases htail with ht | ⟨ha, e, ht⟩
        · exact Or.inl (by rw [ht]; rfl)
        · exact Or.inr ⟨ha, e, by rw [ht]; rfl⟩
      · exact Or.inr ⟨ha, e, by rw [h]; rfl⟩

/-! ## The blocks of a byte string -/

def blocksOf (data : Bytes) (blockSize : Nat) : List Bytes :=
  (List.range (divCeil data.length blockSize)).map (sliceAt data blockSize)

theorem blocksOf_length (data : Bytes) (blockSize : Nat) :
    (blocksOf data blockSize).length = divCeil data.length blockSize := by
  simp [blocksOf]

theorem blocksOf_flatten (data : Bytes) (blockSize : Nat) (h : 0 < blockSize) :
    (blocksOf data blockSize).flatten = data := by
  have hslices : blocksOf data blockSize =
      (List.range (divCeil data.length blockSize)).map (slice blockSize data) :=
    List.map_congr_left (fun i _ => sliceAt_eq data blockSize i)
  rw [hslices, flatten_slices, List.take_of_length_le (le_divCeil_mul _ _ h)]

theorem last_block_le (data : Bytes) (blockSize : Nat) (hne : data ≠ []) (h : 0 < blockSize) :
    (divCeil data.length blockSize - 1) * blockSize < data.length := by
  have hlen := List.length_pos_of_ne_nil hne
  have hlt := divCeil_mul_lt data.length blockSize h
  have hpos := divCeil_pos data.length blockSize hlen h
  obtain ⟨m, hm⟩ : ∃ m, divCeil data.length blockSize = m + 1 := ⟨_, (Nat.sub_add_cancel hpos).symm⟩
  rw [hm, Nat.add_mul] at hlt
  rw [hm, Nat.add_sub_cancel]
  omega

theorem sliceAt_length (data : Bytes) (blockSize i : Nat) (hne : data ≠ []) (h : 0 < blockSize)
    (hi : i < divCeil data.length blockSize) :
    (sliceAt data blockSize i).length =
      blockLen (divCeil data.length blockSize) blockSize data.length i ∧
    sliceAt data blockSize i ≠ [] := by
  have hlast := last_block_le data blockSize hne h
  have hle := le_divCeil_mul data.length blockSize h
  have hlen : (sliceAt data blockSize i).length = min blockSize (data.length - i * blockSize) := by
    rw [sliceAt_eq, slice_length]
  obtain ⟨m, hm⟩ : ∃ m, divCeil data.length blockSize = m + 1 := ⟨divCeil data.length blockSize - 1, by omega⟩
  rw [hm, Nat.add_sub_cancel] at hlast
  rw [hm, Nat.add_mul] at hle
  have hbefore : i * blockSize ≤ m * blockSize := Nat.mul_le_mul_right _ (by omega)
  constructor
  · rw [hlen, blockLen, hm, Nat.add_sub_cancel]
    split
    next he => rw [he]; omega
    next he =>
      have : (i + 1) * blockSize ≤ m * blockSize := Nat.mul_le_mul_right _ (by omega)
      rw [Nat.add_mul] at this
      omega
  · intro hnil
    rw [hnil, List.length_nil] at hlen
    omega

theorem sliceAt_length_le (data : Bytes) (size i : Nat) : (sliceAt data size i).length ≤ data.length := by
  rw [sliceAt_eq, slice_length]
  omega

/-! ## A byte string and its encoding -/

/-- What `encode_blocks` hands out: one encoded block for every part of the data. -/
structure BlocksSpec (rs : ReedSolomon) (sha256 : Bytes → Hash) (b : Build) (data : Bytes)
    (config : ErasureConfig) (blockSize : Nat) (enc : EncodedBlocks) : Prop where
  blockSize_eq : enc.blockSize = blockSize
  originalLen_eq : enc.originalLen = data.length
  blocks : List.Forall₂ (fun i block => BlockSpec rs sha256 b (sliceAt data blockSize i) config block)
    (List.range (divCeil data.length blockSize)) enc.blocks

theorem encodeBlocks_spec (h : Valid rs config) (data : VecU8) (hne : data.val ≠ []) (blockSize : Nat)
    (hsize : 0 < blockSize) :
    ∃ enc, encodeBlocks rs sha256 b data config blockSize = .ok enc ∧
      BlocksSpec rs sha256 b data config blockSize enc := by
  obtain ⟨blocks, hmap, hall⟩ := mapM_exists (List.range (divCeil data.val.length blockSize))
    (f := fun i => encode rs sha256 b (sliceAt data blockSize i) config) (by
      intro i hi
      apply encode_spec h
      · exact (sliceAt_length data blockSize i hne hsize (List.mem_range.mp hi)).2
      · exact Nat.le_trans (sliceAt_length_le data blockSize i) data.property)
  refine ⟨⟨blocks, blockSize, data.val.length⟩, ?_, rfl, rfl, hall⟩
  unfold encodeBlocks
  simp only [hne, if_false, Nat.ne_of_gt hsize, pure, Except.pure, bind, Except.bind, hmap]

/-- Decoding what is left of the shards gives the data, or an error if a block has too few. -/
theorem decodeBlocks_gives (h : Valid rs config) (data : VecU8) (hne : data.val ≠ []) (blockSize : Nat)
    (hsize : 0 < blockSize) (enc : EncodedBlocks)
    (hspec : BlocksSpec rs sha256 b data config blockSize enc) (groups : List (List (Option Bytes)))
    (hkept : List.Forall₂ (fun e g => Kept e.chunks g) enc.blocks groups) :
    Gives (∃ g ∈ groups, g.countP Option.isSome < config.dataShards.toNat)
      (decodeBlocks rs b groups config blockSize data.val.length) data.val := by
  have hblocks := hspec.blocks.length_eq
  rw [List.length_range] at hblocks
  have hgroups := hkept.length_eq
  have hword : data.val.length < wordSize := by
    have := data.property
    unfold isizeMax at this
    unfold wordSize
    omega
  have hlast := last_block_le data.val blockSize hne hsize
  have hgives : Gives (∃ g ∈ groups, g.countP Option.isSome < config.dataShards.toNat)
      (decodeBlocksFrom rs b config groups.length blockSize data.val.length 0 groups)
      (blocksOf data.val blockSize).flatten := by
    apply decodeBlocksFrom_gives _ _ _ _ _ hword
    · rw [blocksOf_length, hblocks, hgroups]
    · intro j hj hj'
      have hj'' : j < enc.blocks.length := by omega
      have hblock := hspec.blocks.get (by rw [List.length_range]; omega) hj''
      have hgive := hblock.decode_gives h groups[j] (hkept.get hj'' hj')
      simp only [List.get_eq_getElem, List.getElem_range] at hgive
      rw [(sliceAt_length data blockSize j hne hsize (by omega)).1] at hgive
      simp only [blocksOf, List.getElem_map, List.getElem_range, Nat.zero_add, ← hgroups, ← hblocks]
      exact hgive.imp id (And.imp_left fun hfew => ⟨_, List.getElem_mem hj', hfew⟩)
    · rw [← hgroups, ← hblocks]
      omega
  rw [blocksOf_flatten data.val blockSize hsize] at hgives
  unfold decodeBlocks
  rw [withCapacity_of_le data.property]
  exact hgives

/-! ## Accepted configurations -/

section

variable {d p : UInt64}

theorem toNat_pos_iff (x : UInt64) : 1 ≤ x.toNat ↔ x ≠ 0 := by
  rw [Nat.one_le_iff_ne_zero, ne_eq, ne_eq, ← UInt64.toNat_inj]
  rfl

theorem new_of_pos (hd : 1 ≤ d.toNat) (hp : 1 ≤ p.toNat) : ErasureConfig.new b d p = (do
    let total ← b.add d.toNat p.toNat
    if 256 < total then fail (.erasureCoding s!"total shards {total} exceeds GF(2^8) limit of 256")
    else return ⟨d, p⟩) := by
  unfold ErasureConfig.new
  rw [if_neg ((toNat_pos_iff d).mp hd), if_neg ((toNat_pos_iff p).mp hp)]

theorem new_of_fits (hd : 1 ≤ d.toNat) (hp : 1 ≤ p.toNat) (hsum : d.toNat + p.toNat < wordSize) :
    ErasureConfig.new b d p = if 256 < d.toNat + p.toNat then
      fail (.erasureCoding s!"total shards {d.toNat + p.toNat} exceeds GF(2^8) limit of 256") else .ok ⟨d, p⟩ := by
  rw [new_of_pos hd hp, b.add_of_lt hsum]
  rfl

theorem new_of_overflow_debug (hd : 1 ≤ d.toNat) (hp : 1 ≤ p.toNat) (hsum : wordSize ≤ d.toNat + p.toNat) :
    ErasureConfig.new .debug d p = .error (.panic .addOverflow) := by
  rw [new_of_pos hd hp, Build.add, if_neg (by omega)]
  rfl

theorem new_of_overflow_release (hd : 1 ≤ d.toNat) (hp : 1 ≤ p.toNat) (hsum : wordSize ≤ d.toNat + p.toNat) :
    ErasureConfig.new .release d p = if 256 < (d.toNat + p.toNat) % wordSize then
      fail (.erasureCoding s!"total shards {(d.toNat + p.toNat) % wordSize} exceeds GF(2^8) limit of 256")
      else .ok ⟨d, p⟩ := by
  rw [new_of_pos hd hp, Build.add, if_neg (by omega)]
  rfl

theorem new_not_pos (h : ¬(1 ≤ d.toNat ∧ 1 ≤ p.toNat)) :
    ∃ text, ErasureConfig.new b d p = fail (.erasureCoding text) := by
  unfold ErasureConfig.new
  by_cases hd : d = 0
  · exact ⟨_, if_pos hd⟩
  · have hp : p = 0 := by
      by_contra hp
      exact h ⟨(toNat_pos_iff d).mpr hd, (toNat_pos_iff p).mpr hp⟩
    rw [if_neg hd, if_pos hp]
    exact ⟨_, rfl⟩

/-- `new` checks both counts. The sum it compares with 256 wraps in a release build. -/
theorem new_accepts (h : ErasureConfig.new b d p = .ok config) :
    config = ⟨d, p⟩ ∧ 1 ≤ d.toNat ∧ 1 ≤ p.toNat ∧
      (d.toNat + p.toNat ≤ 256 ∨ wordSize ≤ d.toNat + p.toNat ∧ b = .release) := by
  by_cases hpos : 1 ≤ d.toNat ∧ 1 ≤ p.toNat
  · obtain ⟨hd, hp⟩ := hpos
    by_cases hsum : d.toNat + p.toNat < wordSize
    · rw [new_of_fits hd hp hsum] at h
      split at h
      · cases h
      · cases h
        exact ⟨rfl, hd, hp, Or.inl (by omega)⟩
    · have hle : wordSize ≤ d.toNat + p.toNat := by omega
      cases b with
      | debug =>
        rw [new_of_overflow_debug hd hp hle] at h
        cases h
      | release =>
        rw [new_of_overflow_release hd hp hle] at h
        split at h
        · cases h
        · cases h
          exact ⟨rfl, hd, hp, Or.inr ⟨hle, rfl⟩⟩
  · obtain ⟨text, herr⟩ := new_not_pos (b := b) hpos
    rw [herr] at h
    cases h

end

/-- If the sum wrapped, the crate refuses the counts and nothing is encoded. -/
theorem encodeBlocks_valid {d p : UInt64} (hnew : ErasureConfig.new b d p = .ok config)
    (hcrate : Documented rs d.toNat p.toNat) (data : Bytes) (hne : data ≠ []) (blockSize : Nat)
    (hsize : 0 < blockSize) (enc : EncodedBlocks)
    (henc : encodeBlocks rs sha256 b data config blockSize = .ok enc) : Valid rs config := by
  obtain ⟨rfl, hd, hp, hsum⟩ := new_accepts hnew
  by_cases hle : d.toNat + p.toNat ≤ 256
  · exact ⟨hd, hp, hle, hcrate⟩
  · obtain ⟨e, herr⟩ := hcrate.new_refuses (by omega)
    unfold encodeBlocks at henc
    simp only [hne, if_false, Nat.ne_of_gt hsize, pure, Except.pure, bind, Except.bind] at henc
    split at henc
    · cases henc
    next blocks hmap =>
      have hzero : 0 ∈ List.range (divCeil data.length blockSize) :=
        List.mem_range.mpr (divCeil_pos _ _ (List.length_pos_of_ne_nil hne) hsize)
      obtain ⟨block, hblock⟩ := mapM_ok_mem _ _ hmap 0 hzero
      unfold encode at hblock
      dsimp only at hblock
      rw [herr] at hblock
      cases hblock

/-! ## Round trip -/

theorem countP_isSome_add_isNone (shards : List (Option Bytes)) :
    shards.countP Option.isSome + shards.countP Option.isNone = shards.length := by
  rw [List.length_eq_countP_add_countP Option.isSome]
  congr 1
  apply List.countP_congr
  intro s _
  simp

/-- Every accepted configuration that can encode gives back the data after the loss of up to
`parityShards` shards in each block. It can encode when the sum did not wrap. -/
theorem decodeBlocks_encodeBlocks (rs : ReedSolomon) (sha256 : Bytes → Hash) (b : Build)
    (d p : UInt64) (config : ErasureConfig) (hnew : ErasureConfig.new b d p = .ok config)
    (hcrate : Documented rs d.toNat p.toNat) (data : VecU8) (hne : data.val ≠ [])
    (blockSize : UInt64) (hsize : 1 ≤ blockSize.toNat) :
    (∀ enc, encodeBlocks rs sha256 b data config blockSize.toNat = .ok enc → ∀ groups,
      List.Forall₂ (fun e g => Kept e.chunks g ∧ g.countP Option.isNone ≤ config.parityShards.toNat)
        enc.blocks groups →
      decodeBlocks rs b groups config blockSize.toNat data.val.length = .ok data.val) ∧
    (d.toNat + p.toNat < wordSize → ∃ enc,
      encodeBlocks rs sha256 b data config blockSize.toNat = .ok enc) := by
  constructor
  · intro enc henc groups hgroups
    have hvalid := encodeBlocks_valid hnew hcrate data.val hne _ hsize enc henc
    obtain ⟨enc', henc', hspec⟩ := encodeBlocks_spec hvalid data hne _ hsize
    cases henc.symm.trans henc'
    have hkept := hgroups.imp (fun _ _ h => h.1)
    rcases decodeBlocks_gives hvalid data hne _ hsize enc hspec groups hkept with h | ⟨⟨g, hg, hfew⟩, -⟩
    · exact h
    · obtain ⟨j, hj, rfl⟩ := List.getElem_of_mem hg
      have hj' : j < enc.blocks.length := by rw [hgroups.length_eq]; exact hj
      obtain ⟨hk, hnone⟩ := hgroups.get hj' hj
      have hchunks := (hspec.blocks.get (by rw [hspec.blocks.length_eq]; exact hj') hj').chunks_length
      have hcount := countP_isSome_add_isNone groups[j]
      have hlen := hk.length_eq
      simp only [List.get_eq_getElem] at hchunks hlen hnone
      omega
  · intro hlt
    obtain ⟨rfl, hd, hp, hsum⟩ := new_accepts hnew
    have hle : d.toNat + p.toNat ≤ 256 := by omega
    have hvalid : Valid rs ⟨d, p⟩ := ⟨hd, hp, hle, hcrate⟩
    obtain ⟨enc, henc, -⟩ := encodeBlocks_spec (b := b) hvalid data hne _ hsize
    exact ⟨enc, henc⟩

/-- Two blocks, each without its first shard. -/
theorem decodeBlocks_encodeBlocks_copies :
    (∃ enc, encodeBlocks copies Sha256.digest .debug [1, 2, 3] ⟨1, 1⟩ 2 = .ok enc) ∧
    decodeBlocks copies .debug [[none, some [1, 2]], [none, some [3]]] ⟨1, 1⟩ 2 3 = .ok [1, 2, 3] := by
  have h := decodeBlocks_encodeBlocks copies Sha256.digest .debug 1 1 ⟨1, 1⟩ rfl
    (copies_documented 1) ⟨[1, 2, 3], by decide⟩ (by decide) 2 (by decide)
  refine ⟨h.2 (by decide), ?_⟩
  let block := fun data : Bytes => EncodedTessera.mk [data, data]
    [Sha256.digest data, Sha256.digest data] ⟨1, 1⟩ data.length
  have henc : encodeBlocks copies Sha256.digest .debug [1, 2, 3] ⟨1, 1⟩ 2 =
      .ok ⟨[block [1, 2], block [3]], 2, 3⟩ := rfl
  apply h.1 _ henc
  refine List.Forall₂.cons ⟨?_, by decide⟩ (List.Forall₂.cons ⟨?_, by decide⟩ List.Forall₂.nil)
  · exact List.Forall₂.cons (Or.inl rfl) (List.Forall₂.cons (Or.inr rfl) List.Forall₂.nil)
  · exact List.Forall₂.cons (Or.inl rfl) (List.Forall₂.cons (Or.inr rfl) List.Forall₂.nil)

end

end TesserasDht.Erasure
