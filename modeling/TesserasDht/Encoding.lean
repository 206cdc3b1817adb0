import TesserasDht.Erasure

/-! # Which byte strings can be encoded -/

open Lib.Slices Lib.Lists

namespace TesserasDht.Encoding

open Erasure

/-- The documented behaviour of the crate on shards without bytes: it refuses them. -/
def RejectsEmpty (rs : ReedSolomon) (d p : Nat) : Prop :=
  ∀ shards : List Bytes, shards.length = d + p → (∀ s ∈ shards, s = []) → ∃ e, rs.encode d p shards = .error e

/-! ## The crate with copies, once more -/

/-- `encode` checks that a shard has bytes. -/
def strict (rs : ReedSolomon) : ReedSolomon :=
  { rs with encode := fun d p shards =>
      if shards.all List.isEmpty then .error "empty shard" else rs.encode d p shards }

theorem strict_rejects (rs : ReedSolomon) (d p : Nat) : RejectsEmpty (strict rs) d p := by
  intro shards _ hempty
  refine ⟨"empty shard", if_pos ?_⟩
  rw [List.all_eq_true]
  intro s hs
  rw [hempty s hs]
  rfl

theorem strict_encode {rs : ReedSolomon} {d p n : Nat} (hd : 1 ≤ d) (hn : 0 < n) {data parity : List Bytes}
    (hdata : data.length = d) (hlen : ∀ s ∈ data ++ parity, s.length = n) :
    (strict rs).encode d p (data ++ parity) = rs.encode d p (data ++ parity) := by
  obtain ⟨s, hs⟩ := List.exists_mem_of_length_pos (l := data) (by omega)
  have hs' := List.mem_append_left parity hs
  refine if_neg fun hall => ?_
  have hnil := List.isEmpty_iff.mp (List.all_eq_true.mp hall s hs')
  have := hlen s hs'
  rw [hnil, List.length_nil] at this
  omega

theorem strict_documented {rs : ReedSolomon} {d p : Nat} (hd : 1 ≤ d) (h : Documented rs d p) :
    Documented (strict rs) d p where
  new_ok := h.new_ok
  new_refuses := h.new_refuses
  encode_ok hnew n data parity hn hdata hparity hlen := by
    rw [strict_encode hd hn hdata hlen]
    exact h.encode_ok hnew n data parity hn hdata hparity hlen
  reconstruct_ok hnew n data parity filled hn hdata hparity hlen hencode := by
    rw [strict_encode hd hn hdata hlen] at hencode
    exact h.reconstruct_ok hnew n data parity filled hn hdata hparity hlen hencode

section

variable {rs : ReedSolomon} {sha256 : Bytes → Hash} {b : Build} {config : ErasureConfig}

theorem encode_nil (hreject : RejectsEmpty rs config.dataShards.toNat config.parityShards.toNat)
    (enc : EncodedTessera) : encode rs sha256 b [] config ≠ .ok enc := by
  intro henc
  unfold encode at henc
  obtain ⟨-, -, henc⟩ := bind_ok henc
  obtain ⟨-, -, henc⟩ := bind_ok henc
  obtain ⟨shards, hshards, -⟩ := bind_ok henc
  have hsize : divCeil ([] : Bytes).length config.dataShards.toNat = 0 := by simp [divCeil]
  rw [hsize] at hshards
  obtain ⟨e, herr⟩ := hreject (((List.range config.dataShards.toNat).map fun i => resize (sliceAt [] 0 i) 0 0) ++
      List.replicate config.parityShards.toNat (List.replicate 0 0)) (by simp) (by
    intro s hs
    rcases List.mem_append.mp hs with hs | hs
    · obtain ⟨i, -, rfl⟩ := List.mem_map.mp hs
      simp [resize]
    · exact List.eq_of_mem_replicate hs)
  rw [herr] at hshards
  cases hshards

theorem encodeBlocks_nil (hreject : RejectsEmpty rs config.dataShards.toNat config.parityShards.toNat)
    (blockSize : Nat) (enc : EncodedBlocks) : encodeBlocks rs sha256 b [] config blockSize ≠ .ok enc := by
  intro henc
  unfold encodeBlocks at henc
  obtain ⟨numBlocks, hnum, henc⟩ := bind_ok henc
  obtain ⟨blocks, hblocks, -⟩ := bind_ok henc
  cases hnum
  obtain ⟨block, hblock⟩ := mapM_ok_mem _ _ hblocks 0 (List.mem_range.mpr Nat.one_pos)
  have hslice : sliceAt [] blockSize 0 = [] := if_neg (Nat.not_lt_zero _)
  rw [hslice] at hblock
  exact encode_nil hreject block hblock

theorem encode_refused {e : String} (hnew : rs.new config.dataShards.toNat config.parityShards.toNat = .error e)
    (data : Bytes) (enc : EncodedTessera) : encode rs sha256 b data config ≠ .ok enc := by
  intro henc
  unfold encode at henc
  obtain ⟨_, hinit, -⟩ := bind_ok henc
  rw [hnew] at hinit
  cases hinit

end

/-- An accepted configuration encodes a byte string, and gives it back from enough shards, just when the byte
string is not empty and the sum of the two counts did not wrap. -/
theorem encode_decode_iff (rs : ReedSolomon) (sha256 : Bytes → Hash) (b : Build) (d p : UInt64)
    (config : ErasureConfig) (hnew : ErasureConfig.new b d p = .ok config)
    (hcrate : Documented rs d.toNat p.toNat) (hreject : RejectsEmpty rs d.toNat p.toNat) (data : VecU8) :
    (∃ enc, encode rs sha256 b data config = .ok enc ∧ config.totalShards b = .ok enc.chunks.length ∧
      (∃ n, ∀ c ∈ enc.chunks, c.length = n) ∧
      ∀ shards, Kept enc.chunks shards → d.toNat ≤ shards.countP Option.isSome →
        decode rs b shards config data.val.length = .ok data.val) ↔
      data.val ≠ [] ∧ d.toNat + p.toNat ≤ 256 := by
  obtain ⟨rfl, hd, hp, -⟩ := new_accepts hnew
  constructor
  · rintro ⟨enc, henc, -⟩
    constructor
    · intro hnil
      rw [hnil] at henc
      exact encode_nil hreject enc henc
    · by_contra hsum
      obtain ⟨e, herr⟩ := hcrate.new_refuses (by omega)
      exact encode_refused herr data.val enc henc
  · rintro ⟨hne, hsum⟩
    have hvalid : Valid rs ⟨d, p⟩ := ⟨hd, hp, hsum, hcrate⟩
    obtain ⟨enc, henc, hspec⟩ : ∃ enc, encode rs sha256 b data ⟨d, p⟩ = .ok enc ∧
        BlockSpec rs sha256 b data ⟨d, p⟩ enc := encode_spec hvalid data.val hne data.property
    obtain ⟨-, filled, -, -, -, hchunks, -, heq⟩ := encode_eq sha256 b hvalid data.val hne
    cases henc.symm.trans heq
    refine ⟨_, henc, ?_, ⟨_, hchunks⟩, hspec.decodes⟩
    rw [hspec.chunks_length]
    exact hvalid.totalShards b

/-- Three bytes in one data shard, from the parity shard. -/
theorem encode_decode_iff_copies :
    ∃ enc, encode (strict copies) Sha256.digest .debug [1, 2, 3] ⟨1, 1⟩ = .ok enc ∧ enc.chunks.length = 2 ∧
      decode (strict copies) .debug [none, enc.chunks[1]?] ⟨1, 1⟩ 3 = .ok [1, 2, 3] := by
  obtain ⟨enc, henc, htotal, -, hdec⟩ := (encode_decode_iff (strict copies) Sha256.digest .debug 1 1 ⟨1, 1⟩ rfl
    (strict_documented (by decide) (copies_documented 1)) (strict_rejects copies 1 1)
    ⟨[1, 2, 3], by decide⟩).mpr (by decide)
  have hlen : enc.chunks.length = 2 := (Except.ok.inj htotal).symm
  refine ⟨enc, henc, hlen, hdec _ ?_ ?_⟩
  · obtain ⟨x, y, hxy⟩ := List.length_eq_two.mp hlen
    rw [hxy]
    exact .cons (Or.inl rfl) (.cons (Or.inr rfl) .nil)
  · obtain ⟨x, y, hxy⟩ := List.length_eq_two.mp hlen
    rw [hxy]
    exact Nat.le_refl 1

/-- No crate that keeps its documentation lets `encode` succeed without data. -/
theorem empty_data_is_not_encoded :
    ErasureConfig.new .release 1 1 = .ok ⟨1, 1⟩ ∧
      ¬∃ rs enc, Documented rs 1 1 ∧ RejectsEmpty rs 1 1 ∧ encode rs Sha256.digest .release [] ⟨1, 1⟩ = .ok enc := by
  refine ⟨rfl, ?_⟩
  rintro ⟨rs, enc, -, hreject, henc⟩
  exact encode_nil hreject enc henc

end TesserasDht.Encoding
