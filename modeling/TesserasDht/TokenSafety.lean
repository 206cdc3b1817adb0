import TesserasDht.Erasure
import TesserasDht.Store

/-! # The decode stage on the numbers of a token -/

open Lib.Slices

namespace TesserasDht.TokenSafety

/-! ## Accepted tokens and manifests -/

/-- What a retrieval may work with: a text that is accepted, or a manifest that parses. -/
def Accepted (codec : Codec) (b : Build) (r : StoreTesseraResult) : Prop :=
  (∃ s, StoreTesseraResult.fromStr codec b s = .ok r) ∨ ∃ data, parseManifest codec b data = .ok r

theorem Accepted.new {codec : Codec} {b : Build} {r : StoreTesseraResult} (h : Accepted codec b r) :
    ∃ d p, ErasureConfig.new b d p = .ok r.config := by
  rcases h with ⟨s, h⟩ | ⟨data, h⟩
  · obtain ⟨bytes, -, h⟩ := bind_ok h
    obtain ⟨token, -, h⟩ := bind_ok h
    split at h
    · split at h
      · cases h
      · obtain ⟨config, hnew, h⟩ := bind_ok h
        cases h
        exact ⟨10, 4, hnew⟩
    · obtain ⟨hashes, -, h⟩ := bind_ok h
      obtain ⟨config, hnew, h⟩ := bind_ok h
      cases h
      exact ⟨token.d, token.p, hnew⟩
  · obtain ⟨manifest, -, h⟩ := bind_ok h
    obtain ⟨hashes, -, h⟩ := bind_ok h
    obtain ⟨config, hnew, h⟩ := bind_ok h
    cases h
    exact ⟨manifest.d, manifest.p, hnew⟩

/-! ## Panics -/

def Panics {α : Type} (r : Outcome α) : Prop := ∃ p, r = .error (.panic p)

/-- A panic of the debug build in whose place the release build wraps. -/
def Overflows {α : Type} (r : Outcome α) : Prop :=
  r = .error (.panic .addOverflow) ∨ r = .error (.panic .subOverflow) ∨
    r = .error (.panic .mulOverflow)

theorem Overflows.panics {α : Type} {r : Outcome α} (h : Overflows r) : Panics r := by
  rcases h with h | h | h
  · exact ⟨_, h⟩
  · exact ⟨_, h⟩
  · exact ⟨_, h⟩

theorem Overflows.bind {α β : Type} {r : Outcome α} (h : Overflows r) (f : α → Outcome β) :
    Overflows (r >>= f) := by
  rcases h with rfl | rfl | rfl
  · exact Or.inl rfl
  · exact Or.inr (Or.inl rfl)
  · exact Or.inr (Or.inr rfl)

theorem Overflows.ne_capacity {α : Type} {r : Outcome α} (h : Overflows r) :
    r ≠ .error (.panic .capacityOverflow) := by
  rcases h with rfl | rfl | rfl <;> rintro ⟨⟩

section

variable {rs : ReedSolomon} {b : Build} {config : ErasureConfig}

/-! ## One block -/

theorem orErasure_cases {α : Type} (what : String) (x : Except String α) :
    (∃ a, orErasure what x = .ok a) ∨ ∃ e, orErasure what x = fail e := by
  cases x with
  | error e => exact Or.inr ⟨_, rfl⟩
  | ok a => exact Or.inl ⟨a, rfl⟩

section

variable (hsum : config.dataShards.toNat + config.parityShards.toNat < wordSize)

include hsum

theorem decode_cases (shards : List (Option Bytes)) (len : Nat) :
    (∃ e, decode rs b shards config len = fail e) ∨
    shards.length = config.dataShards.toNat + config.parityShards.toNat ∧
      ∃ x, decode rs b shards config len = withCapacity len >>= fun _ => .ok x := by
  unfold decode ErasureConfig.totalShards
  rw [b.add_of_lt hsum]
  dsimp only [bind, Except.bind]
  split
  · exact Or.inl ⟨_, rfl⟩
  next hlen =>
    split
    · exact Or.inl ⟨_, rfl⟩
    · rcases orErasure_cases "init"
        (rs.new config.dataShards.toNat config.parityShards.toNat) with ⟨u, hnew⟩ | ⟨e, hnew⟩
      · rw [hnew]
        rcases orErasure_cases "reconstruct" (rs.reconstruct config.dataShards.toNat
          config.parityShards.toNat shards) with ⟨rec, hrec⟩ | ⟨e, hrec⟩
        · rw [hrec]
          exact Or.inr ⟨not_not.mp hlen, _, rfl⟩
        · rw [hrec]
          exact Or.inl ⟨e, rfl⟩
      · rw [hnew]
        exact Or.inl ⟨e, rfl⟩

theorem decode_panic {shards : List (Option Bytes)} {len : Nat} {p : Panic}
    (h : decode rs b shards config len = .error (.panic p)) :
    p = .capacityOverflow ∧ isizeMax < len ∧
      shards.length = config.dataShards.toNat + config.parityShards.toNat := by
  rcases decode_cases hsum shards len with ⟨e, he⟩ | ⟨hlen, x, hx⟩
  · cases he.symm.trans h
  · rcases bind_error (hx.symm.trans h) with hcap | ⟨-, -, h⟩
    · obtain ⟨hp, hlt⟩ := withCapacity_panic hcap
      exact ⟨Failure.panic.inj hp, hlt, hlen⟩
    · cases h

theorem decode_ok_le {shards : List (Option Bytes)} {len : Nat} {x : Bytes}
    (h : decode rs b shards config len = .ok x) : len ≤ isizeMax := by
  rcases decode_cases hsum shards len with ⟨e, he⟩ | ⟨-, y, hy⟩
  · cases he.symm.trans h
  · obtain ⟨_, hcap, -⟩ := bind_ok (hy.symm.trans h)
    exact withCapacity_ok hcap

end

/-! ## The loop -/

section

variable (n blockSize originalLen i : Nat) (g : List (Option Bytes)) (rest : List (List (Option Bytes)))

theorem decodeBlocksFrom_before (hi : i ≠ n - 1) :
    decodeBlocksFrom rs b config n blockSize originalLen i (g :: rest) = (do
      let decoded ← decode rs b g config blockSize
      let result ← decodeBlocksFrom rs b config n blockSize originalLen (i + 1) rest
      return decoded ++ result) := by
  rw [decodeBlocksFrom, if_neg hi]
  rfl

theorem decodeBlocksFrom_last (hi : i = n - 1) (hlt : originalLen < (n - 1) * blockSize) :
    Overflows (decodeBlocksFrom rs .debug config n blockSize originalLen i (g :: rest)) := by
  rw [decodeBlocksFrom, if_pos hi]
  by_cases hword : (n - 1) * blockSize < wordSize
  · rw [Build.mul_of_lt _ hword]
    have hsub : Overflows (Build.debug.sub originalLen ((n - 1) * blockSize)) := by
      right
      left
      rw [Build.sub, if_neg (by omega)]
      rfl
    exact hsub.bind _
  · apply Overflows.bind
    right
    right
    rw [Build.mul, if_neg hword]
    rfl

end

/-- The loop panics where a block needs too much memory, or it reaches the last block and the blocks
before are longer than the whole. -/
theorem decodeBlocksFrom_panic
    (hsum : config.dataShards.toNat + config.parityShards.toNat < wordSize)
    (n blockSize originalLen : Nat) (hword : originalLen < wordSize)
    (groups : List (List (Option Bytes))) (i : Nat) (hi : i + groups.length = n) (p : Panic)
    (h : decodeBlocksFrom rs .debug config n blockSize originalLen i groups = .error (.panic p)) :
    p = .capacityOverflow ∧ (isizeMax < originalLen ∨ isizeMax < blockSize ∧ 2 ≤ n) ∨
    originalLen < (n - 1) * blockSize ∧ (2 ≤ groups.length → blockSize ≤ isizeMax) := by
  induction groups generalizing i with
  | nil => cases h
  | cons g rest ih =>
    rw [List.length_cons] at hi ⊢
    by_cases hlast : i = n - 1
    · -- the last block
      by_cases hfit : (n - 1) * blockSize ≤ originalLen
      · obtain rfl : rest = [] := List.eq_nil_of_length_eq_zero (by omega)
        rw [Erasure.decodeBlocksFrom_cons _ _ _ _ _ _ hfit hword, Erasure.blockLen, if_pos hlast] at h
        rcases bind_error h with h | ⟨x, -, h⟩
        · obtain ⟨hp, hlt, -⟩ := decode_panic hsum h
          exact Or.inl ⟨hp, Or.inl (by omega)⟩
        · cases h
      · exact Or.inr ⟨by omega, by omega⟩
    · -- a block before it
      rw [decodeBlocksFrom_before _ _ _ _ _ _ hlast] at h
      rcases bind_error h with h | ⟨x, hx, h⟩
      · obtain ⟨hp, hlt, -⟩ := decode_panic hsum h
        exact Or.inl ⟨hp, Or.inr ⟨hlt, by omega⟩⟩
      · rcases bind_error h with h | ⟨y, -, h⟩
        · rcases ih (i + 1) (by omega) h with hcap | ⟨hlt, -⟩
          · exact Or.inl hcap
          · exact Or.inr ⟨hlt, fun _ => decode_ok_le hsum hx⟩
        · cases h

/-- The last block is reached if all blocks before it decode. -/
theorem decodeBlocksFrom_overflows (n blockSize originalLen : Nat)
    (hlt : originalLen < (n - 1) * blockSize) (groups : List (List (Option Bytes))) (i : Nat)
    (hi : i + groups.length = n) (hne : groups ≠ [])
    (hok : ∀ g ∈ groups.dropLast, ∃ x, decode rs .debug g config blockSize = .ok x) :
    Overflows (decodeBlocksFrom rs .debug config n blockSize originalLen i groups) := by
  induction groups generalizing i with
  | nil => exact absurd rfl hne
  | cons g rest ih =>
    rw [List.length_cons] at hi
    by_cases hrest : rest = []
    · subst hrest
      rw [List.length_nil] at hi
      exact decodeBlocksFrom_last _ _ _ _ _ _ (by omega) hlt
    · rw [List.dropLast_cons_of_ne_nil hrest] at hok
      have hpos := List.length_pos_of_ne_nil hrest
      obtain ⟨x, hx⟩ := hok g List.mem_cons_self
      have htail := ih (i + 1) (by omega) hrest (fun g hg => hok g (List.mem_cons_of_mem _ hg))
      rw [decodeBlocksFrom_before _ _ _ _ _ _ (by omega), hx]
      exact htail.bind _

/-! ## Chunks that decode -/

/-- There are shards that decode: those of a block of zeros, none missing. -/
theorem exists_group (h : Erasure.Valid rs config) : ∃ group : List Bytes,
    group.length = config.dataShards.toNat + config.parityShards.toNat ∧
    ∀ b len, ∃ x, decode rs b (group.map some) config len = withCapacity len >>= fun _ => .ok x := by
  have hzeros : ∀ s ∈ List.replicate config.dataShards.toNat [(0 : UInt8)] ++
      List.replicate config.parityShards.toNat [0], s.length = 1 := by
    intro s hs
    rw [List.replicate_append_replicate] at hs
    rw [List.eq_of_mem_replicate hs]
    rfl
  obtain ⟨filled, hencode, hlen, -⟩ := h.crate.encode_ok h.new_ok 1 _ _ Nat.one_pos
    List.length_replicate List.length_replicate hzeros
  let group := List.replicate config.dataShards.toNat [(0 : UInt8)] ++ filled
  have hgroup : group.length = config.dataShards.toNat + config.parityShards.toNat := by
    rw [List.length_append, List.length_replicate, hlen]
  have hkept : Erasure.Kept group (group.map some) := by
    apply List.forall₂_map_right_iff.mpr
    exact List.forall₂_same.mpr fun c _ => Or.inr rfl
  have hcount : (group.map some).countP Option.isSome = group.length := by
    rw [List.countP_map]
    exact List.countP_eq_length.mpr fun _ _ => rfl
  have hrec := h.crate.reconstruct_ok h.new_ok 1 _ _ _ Nat.one_pos List.length_replicate
    List.length_replicate hzeros hencode (group.map some) hkept (by omega)
  refine ⟨group, hgroup, ?_⟩
  intro b len
  have hlen' : (group.map some).length = config.dataShards.toNat + config.parityShards.toNat := by
    rw [List.length_map, hgroup]
  exact ⟨_, Erasure.decode_of_reconstruct h hlen' (by omega) hrec len⟩

/-- `n` chunks that repeat a group. -/
def repeated (group : List Bytes) (n : Nat) : List (Option Bytes) :=
  (List.range n).map fun i => some (group.getD (i % group.length) [])

theorem repeated_length (group : List Bytes) (n : Nat) : (repeated group n).length = n := by
  simp [repeated]

theorem slice_repeated (group : List Bytes) (n i : Nat) (hi : (i + 1) * group.length ≤ n) :
    slice group.length (repeated group n) i = group.map some := by
  rw [Nat.add_mul, Nat.one_mul] at hi
  apply List.ext_getElem
  · rw [slice_length, repeated_length, List.length_map]
    omega
  · intro j hj hj'
    rw [List.length_map] at hj'
    have hplace := getElem?_slice group.length (repeated group n) i j hj'
    rw [List.getElem?_eq_getElem hj] at hplace
    apply Option.some.inj
    rw [hplace]
    have hlt : i * group.length + j < n := by omega
    simp only [repeated, List.getElem?_map, List.getElem?_range hlt, Option.map_some,
      List.getElem_map, Nat.mul_add_mod', Nat.mod_eq_of_lt hj', List.getD_eq_getElem?_getD,
      List.getElem?_eq_getElem hj', Option.getD_some]

end

/-! ## The stage -/

section

variable (config : ErasureConfig) (n originalLen blockSize : Nat)

/-- The number of bytes in the blocks before the last one, for `n` chunks. -/
def bytesBefore : Nat :=
  (divCeil n (config.dataShards.toNat + config.parityShards.toNat) - 1) * blockSize

/-- Nothing overflows. A length that no `Vec` can have makes the stage panic before it computes with
it. -/
def ArithmeticFits : Prop :=
  config.dataShards.toNat + config.parityShards.toNat < wordSize ∧
    (blockSize = 0 ∨ bytesBefore config n blockSize ≤ originalLen ∨ isizeMax < originalLen ∨
      isizeMax < blockSize)

/-- Nothing overflows, and memory is reserved for nothing that no `Vec` can hold. -/
def StageFits : Prop :=
  config.dataShards.toNat + config.parityShards.toNat < wordSize ∧
    if blockSize = 0 then
      n = config.dataShards.toNat + config.parityShards.toNat → originalLen ≤ isizeMax
    else
      originalLen ≤ isizeMax ∧ bytesBefore config n blockSize ≤ originalLen

end

section

variable {rs : ReedSolomon} {config : ErasureConfig} {originalLen blockSize : Nat}

theorem decodeStage_total (hsum : wordSize ≤ config.dataShards.toNat + config.parityShards.toNat)
    (shards : List (Option Bytes)) :
    Overflows (decodeStage rs .debug shards config originalLen blockSize) := by
  have htotal : Overflows (config.totalShards .debug) := by
    left
    unfold ErasureConfig.totalShards Build.add
    rw [if_neg (Nat.not_lt.mpr hsum)]
    rfl
  unfold decodeStage
  split
  · exact htotal.bind _
  · exact htotal.bind _

theorem decodeStage_single (shards : List (Option Bytes)) :
    decodeStage rs .debug shards config originalLen 0 = decode rs .debug shards config originalLen :=
  if_pos rfl

variable (hsum : config.dataShards.toNat + config.parityShards.toNat < wordSize)
  (hpos : 0 < config.dataShards.toNat + config.parityShards.toNat)

include hsum hpos

theorem decodeStage_blocks (hsize : blockSize ≠ 0) (shards : List (Option Bytes)) :
    decodeStage rs .debug shards config originalLen blockSize = (do
      withCapacity originalLen
      decodeBlocksFrom rs .debug config
        (divCeil shards.length (config.dataShards.toNat + config.parityShards.toNat)) blockSize
        originalLen 0 (chunks (config.dataShards.toNat + config.parityShards.toNat) shards)) := by
  unfold decodeStage ErasureConfig.totalShards
  rw [if_neg hsize, Build.add_of_lt _ hsum]
  simp only [bind, Except.bind, Nat.ne_of_gt hpos, if_false, decodeBlocks, chunks_length]

theorem decodeStage_panic (hword : originalLen < wordSize) {shards : List (Option Bytes)} {p : Panic}
    (h : decodeStage rs .debug shards config originalLen blockSize = .error (.panic p)) :
    (p = .capacityOverflow ∧ ¬StageFits config shards.length originalLen blockSize) ∨
    blockSize ≠ 0 ∧ originalLen ≤ isizeMax ∧ blockSize ≤ isizeMax ∧
      originalLen < bytesBefore config shards.length blockSize := by
  unfold StageFits bytesBefore
  by_cases hsize : blockSize = 0
  · -- one block
    subst hsize
    rw [decodeStage_single] at h
    obtain ⟨hp, hlt, hlen⟩ := decode_panic hsum h
    refine Or.inl ⟨hp, ?_⟩
    rintro ⟨-, hfits⟩
    rw [if_pos rfl] at hfits
    have := hfits hlen
    omega
  · rw [decodeStage_blocks hsum hpos hsize] at h
    rcases bind_error h with h | ⟨u, hcap, h⟩
    · obtain ⟨hp, hlt⟩ := withCapacity_panic h
      refine Or.inl ⟨Failure.panic.inj hp, ?_⟩
      rintro ⟨-, hfits⟩
      rw [if_neg hsize] at hfits
      omega
    · have hle := withCapacity_ok hcap
      rcases decodeBlocksFrom_panic hsum _ _ _ hword _ 0
        (by rw [chunks_length, Nat.zero_add]) p h with ⟨hp, hbig⟩ | ⟨hlt, hsmall⟩
      · -- a block before the last is too long, so all blocks together are
        refine Or.inl ⟨hp, ?_⟩
        rintro ⟨-, hfits⟩
        rw [if_neg hsize] at hfits
        rcases hbig with hbig | ⟨hbig, htwo⟩
        · omega
        · have := Nat.le_mul_of_pos_left blockSize (Nat.sub_pos_of_lt htwo)
          omega
      · refine Or.inr ⟨hsize, hle, hsmall ?_, hlt⟩
        rw [chunks_length]
        by_contra hone
        rw [show divCeil shards.length _ - 1 = 0 by omega, Nat.zero_mul] at hlt
        omega

end

/-! ## Numbers that do not fit -/

section

variable {rs : ReedSolomon} {config : ErasureConfig} {n originalLen blockSize : Nat}
  (h : Erasure.Valid rs config) (hlt : originalLen < bytesBefore config n blockSize)

include h hlt

/-- There are at least two blocks, and there are chunks with which all but the last decode. -/
theorem exists_groups : ∃ (shards : List (Option Bytes)) (g : List (Option Bytes)) (rest : List (List (Option Bytes))),
      shards.length = n ∧ rest ≠ [] ∧
      chunks (config.dataShards.toNat + config.parityShards.toNat) shards = g :: rest ∧
      ∀ g' ∈ (g :: rest).dropLast, ∀ len, ∃ x,
        decode rs .debug g' config len = withCapacity len >>= fun _ => .ok x := by
  obtain ⟨group, hlen, hgroup⟩ := exists_group h
  have hdecodes : ∀ g' ∈ (chunks (config.dataShards.toNat + config.parityShards.toNat)
      (repeated group n)).dropLast, ∀ len, ∃ x,
      decode rs .debug g' config len = withCapacity len >>= fun _ => .ok x := by
    intro g' hg' len
    obtain ⟨i, rfl, hi⟩ := mem_dropLast_chunks h.total_pos hg'
    rw [repeated_length, ← hlen] at hi
    rw [← hlen, slice_repeated group n i hi]
    exact hgroup .debug len
  have hmany : 2 ≤ (chunks (config.dataShards.toNat + config.parityShards.toNat)
      (repeated group n)).length := by
    rw [chunks_length, repeated_length]
    by_contra hfew
    unfold bytesBefore at hlt
    rw [show divCeil n _ - 1 = 0 by omega, Nat.zero_mul] at hlt
    omega
  match hchunks : chunks (config.dataShards.toNat + config.parityShards.toNat) (repeated group n) with
  | [] =>
    rw [hchunks, List.length_nil] at hmany
    omega
  | g :: rest =>
    rw [hchunks] at hdecodes hmany
    refine ⟨_, g, rest, repeated_length group n, ?_, hchunks, hdecodes⟩
    rintro rfl
    simp at hmany

theorem exists_overflow (hsize : blockSize ≠ 0) (hlen : originalLen ≤ isizeMax)
    (hblock : blockSize ≤ isizeMax) :
    ∃ shards, shards.length = n ∧
      Overflows (decodeStage rs .debug shards config originalLen blockSize) := by
  obtain ⟨shards, g, rest, rfl, -, hchunks, hdecodes⟩ := exists_groups h hlt
  refine ⟨shards, rfl, ?_⟩
  rw [decodeStage_blocks h.sum_lt h.total_pos hsize, withCapacity_of_le hlen, hchunks]
  refine decodeBlocksFrom_overflows _ _ _ hlt _ 0 ?_ (List.cons_ne_nil _ _) ?_
  · rw [← hchunks, chunks_length, Nat.zero_add]
  · intro g' hg'
    obtain ⟨x, hx⟩ := hdecodes g' hg' blockSize
    rw [withCapacity_of_le hblock] at hx
    exact ⟨x, hx⟩

/-- The first of the blocks is one that no `Vec` can hold. -/
theorem exists_panic (hsize : blockSize ≠ 0) (hlen : originalLen ≤ isizeMax)
    (hblock : isizeMax < blockSize) :
    ∃ shards, shards.length = n ∧
      Panics (decodeStage rs .debug shards config originalLen blockSize) := by
  obtain ⟨shards, g, rest, rfl, hrest, hchunks, hdecodes⟩ := exists_groups h hlt
  refine ⟨shards, rfl, .capacityOverflow, ?_⟩
  have hcount := chunks_length (config.dataShards.toNat + config.parityShards.toNat) shards
  rw [hchunks, List.length_cons] at hcount
  have hpos := List.length_pos_of_ne_nil hrest
  rw [List.dropLast_cons_of_ne_nil hrest] at hdecodes
  obtain ⟨x, hx⟩ := hdecodes g List.mem_cons_self blockSize
  rw [withCapacity, if_pos hblock] at hx
  rw [decodeStage_blocks h.sum_lt h.total_pos hsize, withCapacity_of_le hlen, hchunks]
  show decodeBlocksFrom rs .debug config _ blockSize originalLen 0 (g :: rest) = _
  rw [decodeBlocksFrom_before _ _ _ _ _ _ (by omega), hx]
  rfl

end

section

variable {rs : ReedSolomon} {config : ErasureConfig} {n originalLen blockSize : Nat}
  (h : Erasure.Valid rs config) (hword : originalLen < wordSize)

include h hword

theorem not_overflows_iff :
    (∀ shards, shards.length = n →
      ¬Overflows (decodeStage rs .debug shards config originalLen blockSize)) ↔
    ArithmeticFits config n originalLen blockSize := by
  constructor
  · intro hall
    refine ⟨h.sum_lt, ?_⟩
    by_contra hnot
    simp only [not_or, Nat.not_le, Nat.not_lt] at hnot
    obtain ⟨hsize, hlt, hlen, hblock⟩ := hnot
    obtain ⟨shards, hn, hover⟩ := exists_overflow h hlt hsize hlen hblock
    exact hall shards hn hover
  · rintro ⟨-, hfits⟩ shards rfl hover
    obtain ⟨p, hp⟩ := hover.panics
    rcases decodeStage_panic h.sum_lt h.total_pos hword hp with ⟨rfl, -⟩ | hbad
    · exact hover.ne_capacity hp
    · omega

theorem not_panics_iff :
    (∀ shards, shards.length = n →
      ¬Panics (decodeStage rs .debug shards config originalLen blockSize)) ↔
    StageFits config n originalLen blockSize := by
  constructor
  · intro hall
    refine ⟨h.sum_lt, ?_⟩
    split
    next hsize =>
      -- one block
      intro hn
      by_contra hlen
      obtain ⟨group, hgroup, hdecode⟩ := exists_group h
      obtain ⟨x, hx⟩ := hdecode .debug originalLen
      apply hall (group.map some) (by rw [List.length_map, hgroup, hn])
      refine ⟨.capacityOverflow, ?_⟩
      rw [hsize, decodeStage_single, hx, withCapacity, if_pos (Nat.not_le.mp hlen)]
      rfl
    next hsize =>
      have hlen : originalLen ≤ isizeMax := by
        by_contra hlen
        apply hall (List.replicate n none) List.length_replicate
        refine ⟨.capacityOverflow, ?_⟩
        rw [decodeStage_blocks h.sum_lt h.total_pos hsize, withCapacity,
          if_pos (Nat.not_le.mp hlen)]
        rfl
      refine ⟨hlen, ?_⟩
      by_contra hlt
      rcases Nat.lt_or_ge isizeMax blockSize with hblock | hblock
      · obtain ⟨shards, hn, hpanic⟩ := exists_panic h (Nat.not_le.mp hlt) hsize hlen hblock
        exact hall shards hn hpanic
      · obtain ⟨shards, hn, hover⟩ := exists_overflow h (Nat.not_le.mp hlt) hsize hlen hblock
        exact hall shards hn hover.panics
  · rintro hfits shards rfl ⟨p, hp⟩
    rcases decodeStage_panic h.sum_lt h.total_pos hword hp with ⟨-, hbad⟩ | ⟨hsize, -, -, hlt⟩
    · exact hbad hfits
    · obtain ⟨-, hfits⟩ := hfits
      rw [if_neg hsize] at hfits
      omega

end

/-! ## All tokens -/

/-- The decode stage, on whatever was fetched for the chunks of an accepted token or manifest, never
overflows just when the numbers fit, and never panics just when the memory fits as well. Nothing
compares the numbers before. -/
theorem decodeStage_safe_iff (rs : ReedSolomon) (codec : Codec) (b : Build) (r : StoreTesseraResult)
    (hr : Accepted codec b r)
    (hcrate : Erasure.Documented rs r.config.dataShards.toNat r.config.parityShards.toNat) :
    let stage (shards : List (Option Bytes)) :=
      decodeStage rs .debug shards r.config r.originalLen.toNat r.blockSize.toNat
    let n := r.chunkHashes.length
    ((∀ shards, shards.length = n → ¬Overflows (stage shards)) ↔
      ArithmeticFits r.config n r.originalLen.toNat r.blockSize.toNat) ∧
    ((∀ shards, shards.length = n → ¬Panics (stage shards)) ↔
      StageFits r.config n r.originalLen.toNat r.blockSize.toNat) := by
  intro stage n
  obtain ⟨d, p, hnew⟩ := hr.new
  obtain ⟨hconfig, hd, hp, hsum⟩ := Erasure.new_accepts hnew
  have hword : r.originalLen.toNat < wordSize := r.originalLen.toNat_lt
  by_cases hle : d.toNat + p.toNat ≤ 256
  · have hvalid : Erasure.Valid rs r.config :=
      ⟨by rw [hconfig]; exact hd, by rw [hconfig]; exact hp, by rw [hconfig]; exact hle, hcrate⟩
    exact ⟨not_overflows_iff hvalid hword, not_panics_iff hvalid hword⟩
  · -- the sum wrapped when the configuration was checked, and overflows again
    have hbig : wordSize ≤ r.config.dataShards.toNat + r.config.parityShards.toNat := by
      rw [hconfig]
      exact (hsum.resolve_left hle).1
    have hover : Overflows (stage (List.replicate n none)) := decodeStage_total hbig _
    constructor
    · exact iff_of_false (fun hall => hall _ List.length_replicate hover)
        (fun hfits => Nat.not_lt.mpr hbig hfits.1)
    · exact iff_of_false (fun hall => hall _ List.length_replicate hover.panics)
        (fun hfits => Nat.not_lt.mpr hbig hfits.1)

/-- A token for `count` chunks `[7]`, with one data and one parity shard in a block of 10 bytes. -/
def tokenOf (count : Nat) (originalLen : UInt64) : StoreTesseraResultToken :=
  ⟨List.replicate count (Sha256.digest [7]).bytes, 1, 1, originalLen, 10, []⟩

def resultOf (count : Nat) (originalLen : UInt64) : StoreTesseraResult :=
  ⟨List.replicate count (Sha256.digest [7]), ⟨1, 1⟩, originalLen, 10, none⟩

/-- One block and one byte. -/
theorem decodeStage_safe_iff_one :
    Accepted (.knowing [tokenOf 2 1] []) .release (resultOf 2 1) ∧
    ∀ shards, shards.length = 2 → ¬Panics (decodeStage Erasure.copies .debug shards ⟨1, 1⟩ 1 10) := by
  have haccepted : Accepted (.knowing [tokenOf 2 1] []) .release (resultOf 2 1) :=
    Or.inl ⟨(tokenOf 2 1).text, by decide +kernel⟩
  have h := decodeStage_safe_iff Erasure.copies _ _ _ haccepted (Erasure.copies_documented 1)
  refine ⟨haccepted, h.2.mpr ⟨by decide, ?_⟩⟩
  rw [if_neg (by decide)]
  decide

/-- Every peer has the chunk. -/
def sevens : Net where
  meanwhile _ node := node
  faults _ := .none
  answer _ _ := some [7]
  order _ peers := peers
  order_perm _ _ := List.Perm.refl _

/-- Two blocks of 10 bytes in a tessera of 5. The subtraction underflows in a debug build, and in a
release build it wraps to a length for which there is no memory. -/
theorem short_length_underflows :
    (∀ b, StoreTesseraResult.fromStr (.knowing [tokenOf 4 5] []) b (tokenOf 4 5).text =
      .ok (resultOf 4 5)) ∧
    (doRetrieveTessera Erasure.copies Sha256.digest (.knowing [tokenOf 4 5] []) .debug sevens sevens id
      (resultOf 4 5) (Store.nodeWith [Routing.peerOf 1])).1 = .error (.panic .subOverflow) ∧
    (doRetrieveTessera Erasure.copies Sha256.digest (.knowing [tokenOf 4 5] []) .release sevens sevens id
      (resultOf 4 5) (Store.nodeWith [Routing.peerOf 1])).1 = .error (.panic .capacityOverflow) := by
  refine ⟨?_, by decide +kernel, by decide +kernel⟩
  intro b
  cases b
  · decide +kernel
  · decide +kernel

end TesserasDht.TokenSafety
