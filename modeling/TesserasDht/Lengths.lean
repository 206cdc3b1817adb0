import TesserasDht.TokenSafety

/-! # How many bytes a retrieval returns -/

open Lib.Slices Lib.Lists

namespace TesserasDht.Lengths

/-! ## The shards of a block -/

/-- The crate refuses shards of different lengths, and what it restores has the length of the others. -/
structure Uniform (rs : ReedSolomon) (d p : Nat) : Prop where
  reconstruct_ok : ∀ shards all, rs.reconstruct d p shards = .ok all →
    ∃ n, (∀ s ∈ shards, ∀ x, s = some x → x.length = n) ∧ all.length = shards.length ∧
      ∀ s ∈ all, ∃ x, s = some x ∧ x.length = n

/-- The length of the shards that are there. -/
def shardLen (shards : List (Option Bytes)) : Nat :=
  ((shards.filterMap id).head?.map List.length).getD 0

/-- The bytes in the data shards. -/
def held (config : ErasureConfig) (shards : List (Option Bytes)) : Nat :=
  config.dataShards.toNat * shardLen shards

section

variable {rs : ReedSolomon} {b : Build} {config : ErasureConfig}

theorem shardLen_eq {shards : List (Option Bytes)} {n : Nat} (hpos : 0 < shards.countP Option.isSome)
    (h : ∀ s ∈ shards, ∀ x, s = some x → x.length = n) : shardLen shards = n := by
  obtain ⟨s, hs, hsome⟩ := List.countP_pos_iff.mp hpos
  obtain ⟨x, rfl⟩ := Option.isSome_iff_exists.mp hsome
  unfold shardLen
  cases hf : shards.filterMap id with
  | nil =>
    have : x ∈ shards.filterMap id := List.mem_filterMap.mpr ⟨some x, hs, rfl⟩
    rw [hf] at this
    cases this
  | cons y ys =>
    have hy : y ∈ shards.filterMap id := by
      rw [hf]
      exact List.mem_cons_self
    obtain ⟨s', hs', hsy⟩ := List.mem_filterMap.mp hy
    exact h s' hs' y hsy

theorem flatten_length {l : List (Option Bytes)} {n : Nat}
    (h : ∀ s ∈ l, ∃ x, s = some x ∧ x.length = n) : (l.filterMap id).flatten.length = l.length * n := by
  have hcount : l.countP (fun s => (id s).isSome) = l.length := by
    apply List.countP_eq_length.mpr
    intro s hs
    obtain ⟨x, rfl, -⟩ := h s hs
    rfl
  rw [length_flatten_eq _ n, List.length_filterMap_eq_countP, hcount]
  intro x hx
  obtain ⟨s, hs, hsx⟩ := List.mem_filterMap.mp hx
  obtain ⟨y, rfl, hy⟩ := h s hs
  cases hsx
  exact hy

/-- `truncate` cuts what is too long and never adds. -/
theorem decode_length (hcrate : Uniform rs config.dataShards.toNat config.parityShards.toNat)
    (hdata : 1 ≤ config.dataShards.toNat) {shards : List (Option Bytes)} {len : Nat} {v : Bytes}
    (h : decode rs b shards config len = .ok v) : v.length = min len (held config shards) := by
  obtain ⟨all, -, hcount, hrec, rfl⟩ := Erasure.decode_ok h
  obtain ⟨n, hpresent, hall, hn⟩ := hcrate.reconstruct_ok shards all hrec
  have hle : config.dataShards.toNat ≤ all.length := by
    rw [hall]
    exact Nat.le_trans hcount List.countP_le_length
  rw [List.length_take, flatten_length (fun s hs => hn s (List.mem_of_mem_take hs)),
    List.length_take, Nat.min_eq_left hle, held, shardLen_eq (by omega) hpresent]

/-! ## The blocks -/

/-- The number of bytes that the last of `n` blocks is asked for. -/
def lastLen (b : Build) (n blockSize originalLen : Nat) : Outcome Nat := do
  let before ← b.mul (n - 1) blockSize
  b.sub originalLen before

theorem decodeBlocksFrom_length
    (hcrate : Uniform rs config.dataShards.toNat config.parityShards.toNat)
    (hdata : 1 ≤ config.dataShards.toNat) (n blockSize originalLen : Nat)
    (groups : List (List (Option Bytes))) (i : Nat) (hi : i + groups.length = n) (hne : groups ≠ [])
    (v : Bytes) (h : decodeBlocksFrom rs b config n blockSize originalLen i groups = .ok v) :
    ∃ len, lastLen b n blockSize originalLen = .ok len ∧
      v.length = (groups.dropLast.map fun g => min blockSize (held config g)).sum +
        min len (held config (groups.getLast hne)) := by
  induction groups generalizing i v with
  | nil => exact absurd rfl hne
  | cons g rest ih =>
    rw [List.length_cons] at hi
    by_cases hrest : rest = []
    · subst hrest
      rw [List.length_nil] at hi
      rw [decodeBlocksFrom, if_pos (by omega)] at h
      obtain ⟨before, hbefore, h⟩ := bind_ok h
      obtain ⟨len, hlen, h⟩ := bind_ok h
      obtain ⟨x, hx, h⟩ := bind_ok h
      cases h
      refine ⟨len, ?_, ?_⟩
      · rw [lastLen, hbefore]
        exact hlen
      · simpa using decode_length hcrate hdata hx
    · have hpos := List.length_pos_of_ne_nil hrest
      rw [TokenSafety.decodeBlocksFrom_before _ _ _ _ _ _ (by omega)] at h
      obtain ⟨x, hx, h⟩ := bind_ok h
      obtain ⟨y, hy, h⟩ := bind_ok h
      cases h
      obtain ⟨len, hlen, hlength⟩ := ih (i + 1) (by omega) hrest y hy
      refine ⟨len, hlen, ?_⟩
      rw [List.dropLast_cons_of_ne_nil hrest, List.getLast_cons hrest, List.map_cons, List.sum_cons,
        List.length_append, decode_length hcrate hdata hx, hlength, Nat.add_assoc]

theorem lastLen_ok {n blockSize originalLen len : Nat} (hword : originalLen < wordSize)
    (h : lastLen b n blockSize originalLen = .ok len) :
    len = (originalLen + (wordSize - (n - 1) * blockSize % wordSize)) % wordSize := by
  obtain ⟨before, hbefore, hlen⟩ := bind_ok h
  have hmul := Build.mul_ok hbefore
  rw [← hmul]
  exact Build.sub_ok hword (by rw [hmul]; exact Nat.mod_lt _ (by decide)) hlen

theorem lastLen_of_le {n blockSize originalLen : Nat} (hword : originalLen < wordSize)
    (hfit : (n - 1) * blockSize ≤ originalLen) :
    lastLen b n blockSize originalLen = .ok (originalLen - (n - 1) * blockSize) := by
  rw [lastLen, Build.mul_of_lt _ (Nat.lt_of_le_of_lt hfit hword)]
  exact Build.sub_of_le _ hfit

/-! ## The stage -/

/-- The shards hold what is asked for. -/
def Covers (config : ErasureConfig) (shards : List (Option Bytes)) (originalLen blockSize : Nat) : Prop :=
  let groups := chunks (config.dataShards.toNat + config.parityShards.toNat) shards
  let before := (groups.length - 1) * blockSize
  if blockSize = 0 then
    originalLen ≤ held config shards
  else if groups = [] then
    originalLen = 0
  else if before ≤ originalLen then
    (∀ g ∈ groups.dropLast, blockSize ≤ held config g) ∧
      ∀ g ∈ groups.getLast?, originalLen - before ≤ held config g
  else
    -- the length of the last block wrapped, and the lengths add up by chance
    let len := (originalLen + (wordSize - before % wordSize)) % wordSize
    (groups.dropLast.map fun g => min blockSize (held config g)).sum +
      (groups.getLast?.map fun g => min len (held config g)).getD 0 = originalLen

theorem decodeBlocks_covers (hcrate : Uniform rs config.dataShards.toNat config.parityShards.toNat)
    (hdata : 1 ≤ config.dataShards.toNat) {shards : List (Option Bytes)}
    {originalLen blockSize : Nat} (hword : originalLen < wordSize) (hsize : blockSize ≠ 0) {v : Bytes}
    (h : decodeBlocks rs b (chunks (config.dataShards.toNat + config.parityShards.toNat) shards) config
      blockSize originalLen = .ok v) :
    v.length = originalLen ↔ Covers config shards originalLen blockSize := by
  obtain ⟨-, -, h⟩ := bind_ok h
  unfold Covers
  generalize chunks (config.dataShards.toNat + config.parityShards.toNat) shards = groups at h ⊢
  dsimp only
  rw [if_neg hsize]
  by_cases hne : groups = []
  · subst hne
    cases h
    rw [if_pos rfl, List.length_nil]
    exact eq_comm
  · obtain ⟨len, hlen, hlength⟩ := decodeBlocksFrom_length hcrate hdata _ _ _ _ 0 (Nat.zero_add _) hne
      v h
    rw [if_neg hne, hlength]
    split
    next hfit =>
      rw [lastLen_of_le hword hfit] at hlen
      cases hlen
      have hle := sum_map_min_le (held config) blockSize groups.dropLast
      have hiff := sum_map_min_eq_iff (held config) blockSize groups.dropLast
      rw [List.length_dropLast] at hle hiff
      rw [← hiff, List.getLast?_eq_getLast_of_ne_nil hne]
      simp only [Option.mem_some_iff, forall_eq']
      omega
    next =>
      rw [lastLen_ok hword hlen, List.getLast?_eq_getLast_of_ne_nil hne]
      rfl

end

theorem decodeStage_ok {rs : ReedSolomon} {b : Build} {config : ErasureConfig}
    {shards : List (Option Bytes)} {originalLen blockSize : Nat} {v : Bytes}
    (h : decodeStage rs b shards config originalLen blockSize = .ok v) :
    blockSize = 0 ∧ decode rs b shards config originalLen = .ok v ∨
    blockSize ≠ 0 ∧ ∃ total, config.totalShards b = .ok total ∧ total ≠ 0 ∧
      decodeBlocks rs b (chunks total shards) config blockSize originalLen = .ok v := by
  unfold decodeStage at h
  split at h
  next hsize => exact Or.inl ⟨hsize, h⟩
  next hsize =>
    obtain ⟨total, htotal, h⟩ := bind_ok h
    split at h
    · cases h
    next hpos => exact Or.inr ⟨hsize, total, htotal, hpos, h⟩

section

variable {rs : ReedSolomon} {b : Build} {config : ErasureConfig}

/-- The sum wrapped, so there are never as many shards as data shards. -/
theorem decode_wrapped (hsum : wordSize ≤ config.dataShards.toNat + config.parityShards.toNat)
    (shards : List (Option Bytes)) (len : Nat) (v : Bytes) : decode rs b shards config len ≠ .ok v := by
  intro h
  obtain ⟨all, htotal, hcount, -, -⟩ := Erasure.decode_ok h
  have hle : shards.countP Option.isSome ≤ shards.length := List.countP_le_length
  have hd := config.dataShards.toNat_lt
  have hp := config.parityShards.toNat_lt
  have hlen := Build.add_ok htotal
  unfold wordSize at hsum hlen
  omega

theorem decodeBlocksFrom_first {n blockSize originalLen i : Nat} {g : List (Option Bytes)}
    {rest : List (List (Option Bytes))} {v : Bytes}
    (h : decodeBlocksFrom rs b config n blockSize originalLen i (g :: rest) = .ok v) :
    ∃ len x, decode rs b g config len = .ok x := by
  rw [decodeBlocksFrom] at h
  split at h
  · obtain ⟨before, -, h⟩ := bind_ok h
    obtain ⟨len, -, h⟩ := bind_ok h
    obtain ⟨x, hx, -⟩ := bind_ok h
    exact ⟨len, x, hx⟩
  · obtain ⟨len, -, h⟩ := bind_ok h
    obtain ⟨x, hx, -⟩ := bind_ok h
    exact ⟨len, x, hx⟩

theorem decodeStage_wrapped (hsum : wordSize ≤ config.dataShards.toNat + config.parityShards.toNat)
    {shards : List (Option Bytes)} {originalLen blockSize : Nat} {v : Bytes}
    (h : decodeStage rs b shards config originalLen blockSize = .ok v) :
    blockSize ≠ 0 ∧ shards = [] ∧ v = [] := by
  rcases decodeStage_ok h with ⟨-, h⟩ | ⟨hsize, total, -, hpos, h⟩
  · exact absurd h (decode_wrapped hsum _ _ _)
  · obtain ⟨-, -, h⟩ := bind_ok h
    refine ⟨hsize, ?_⟩
    cases shards with
    | nil =>
      rw [chunks_nil] at h
      cases h
      exact ⟨rfl, rfl⟩
    | cons s rest =>
      exfalso
      have hne : chunks total (s :: rest) ≠ [] := by
        apply List.ne_nil_of_length_pos
        rw [chunks_length]
        exact divCeil_pos _ _ (Nat.succ_pos _) (Nat.pos_of_ne_zero hpos)
      obtain ⟨g, gs, hgroups⟩ := List.exists_cons_of_ne_nil hne
      rw [hgroups] at h
      obtain ⟨len, x, hx⟩ := decodeBlocksFrom_first h
      exact decode_wrapped hsum _ _ _ hx

end

/-- When the decode stage returns bytes, they have the length of the token just when the shards hold
what is asked for. Nothing compares the two. -/
theorem decodeStage_length_iff (rs : ReedSolomon) (codec : Codec) (b : Build) (r : StoreTesseraResult)
    (hr : TokenSafety.Accepted codec b r)
    (hcrate : Uniform rs r.config.dataShards.toNat r.config.parityShards.toNat)
    (shards : List (Option Bytes)) (v : Bytes)
    (h : decodeStage rs b shards r.config r.originalLen.toNat r.blockSize.toNat = .ok v) :
    v.length = r.originalLen.toNat ↔
      Covers r.config shards r.originalLen.toNat r.blockSize.toNat := by
  obtain ⟨d, p, hnew⟩ := hr.new
  obtain ⟨hconfig, hd, hp, hsum⟩ := Erasure.new_accepts hnew
  have hdata : 1 ≤ r.config.dataShards.toNat := by
    rw [hconfig]
    exact hd
  rcases hsum with hsum | ⟨hsum, -⟩
  · rcases decodeStage_ok h with ⟨hsize, h⟩ | ⟨hsize, total, htotal, -, h⟩
    · rw [decode_length hcrate hdata h, Covers, if_pos hsize]
      exact min_eq_left_iff
    · have hsmall : r.config.dataShards.toNat + r.config.parityShards.toNat < wordSize := by
        rw [hconfig]
        exact Nat.lt_of_le_of_lt hsum (by decide)
      rw [ErasureConfig.totalShards, Build.add_of_lt _ hsmall] at htotal
      cases htotal
      exact decodeBlocks_covers hcrate hdata r.originalLen.toNat_lt hsize h
  · -- the sum wrapped: only the empty list decodes, to nothing
    have hbig : wordSize ≤ r.config.dataShards.toNat + r.config.parityShards.toNat := by
      rw [hconfig]
      exact hsum
    obtain ⟨hsize, rfl, rfl⟩ := decodeStage_wrapped hbig h
    rw [Covers, if_neg hsize, chunks_nil, if_pos rfl, List.length_nil]
    exact eq_comm

/-- The crate for one data shard. -/
def oneShard : ReedSolomon where
  new := Erasure.copies.new
  encode := Erasure.copies.encode
  reconstruct d p shards := match shards.filterMap id with
    | [] => .error "too few shards present"
    | x :: rest =>
      if shards.length ≠ d + p then .error "wrong number of shards"
      else if x = [] then .error "empty shard"
      else if rest.any fun y => y.length ≠ x.length then .error "shards are of different sizes"
      else .ok (shards.map fun _ => some x)

theorem oneShard_uniform (p : Nat) : Uniform oneShard 1 p where
  reconstruct_ok shards all h := by
    unfold oneShard at h
    dsimp only at h
    split at h
    · cases h
    next x rest hfilter =>
      split_ifs at h with hlen hempty hsizes
      cases h
      have hall : ∀ y ∈ x :: rest, y.length = x.length := by
        intro y hy
        rcases List.mem_cons.mp hy with rfl | hy
        · rfl
        · by_contra hne
          exact hsizes (List.any_eq_true.mpr ⟨y, hy, decide_eq_true hne⟩)
      refine ⟨x.length, ?_, List.length_map _, ?_⟩
      · rintro s hs y rfl
        apply hall y
        rw [← hfilter]
        exact List.mem_filterMap.mpr ⟨some y, hs, rfl⟩
      · intro s hs
        obtain ⟨-, -, rfl⟩ := List.mem_map.mp hs
        exact ⟨x, rfl, rfl⟩

open TokenSafety (Accepted tokenOf resultOf sevens)

/-- One block, with the byte that the token asks for. -/
theorem decodeStage_length_iff_one :
    Accepted (.knowing [tokenOf 2 1] []) .release (resultOf 2 1) ∧
    decodeStage oneShard .release [some [7], none] ⟨1, 1⟩ 1 10 = .ok [7] ∧
    Covers ⟨1, 1⟩ [some [7], none] 1 10 := by
  have haccepted : Accepted (.knowing [tokenOf 2 1] []) .release (resultOf 2 1) :=
    Or.inl ⟨(tokenOf 2 1).text, by decide +kernel⟩
  have hstage : decodeStage oneShard .release [some [7], none] ⟨1, 1⟩ 1 10 = .ok [7] := by
    decide +kernel
  have h := decodeStage_length_iff oneShard _ _ _ haccepted (oneShard_uniform 1) _ _ hstage
  exact ⟨haccepted, hstage, h.mp rfl⟩

/-- What a retrieval returns for a token, from a peer that has the chunk, and the length in the token. -/
def retrieveToken (b : Build) (token : StoreTesseraResultToken) : Outcome (Bytes × Nat) := do
  let codec := Codec.knowing [token] []
  let r ← StoreTesseraResult.fromStr codec b token.text
  let v ← (doRetrieveTessera oneShard Sha256.digest codec b sevens sevens id r
    (Store.nodeWith [Routing.peerOf 1])).1
  return (v, r.originalLen.toNat)

/-- A tessera of 5 bytes with no chunks is retrieved as nothing, and one with two chunks of a byte as
a byte. -/
theorem short_read :
    retrieveToken .release (tokenOf 0 5) = .ok ([], 5) ∧
      retrieveToken .release (tokenOf 2 5) = .ok ([7], 5) ∧
      ([] : Bytes).length ≠ 5 ∧ ([7] : Bytes).length ≠ 5 := by
  decide +kernel

end TesserasDht.Lengths
