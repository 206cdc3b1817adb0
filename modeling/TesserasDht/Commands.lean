import TesserasDht.Code.Commands
import TesserasDht.Encoding
import TesserasDht.Retrieve
import TesserasDht.Room
import TesserasDht.TokenSafety

/-! # What the store command prints and the get command takes -/

open Lib.Slices Lib.Lists Lib.Formats

namespace TesserasDht.Commands

open Retrieve (encodedChunks)

def hexDigits : List Char := ['0', '1', '2', '3', '4', '5', '6', '7', '8', '9', 'a', 'b', 'c', 'd', 'e', 'f']

/-- The documented behaviour of the crate: two lower-case digits for each byte, and back. -/
structure Documented (hex : Hex) : Prop where
  digits : ∀ bytes, ∀ c ∈ hex.encode bytes, c ∈ hexDigits
  decode_encode : ∀ bytes, hex.decode (hex.encode bytes) = .ok bytes

/-! ## The hashes as text -/

section

variable {hex : Hex} (hhex : Documented hex)

include hhex

theorem encode_plain (bytes : Bytes) : ∀ c ∈ hex.encode bytes, isWhitespace c = false ∧ c ≠ ',' := by
  intro c hc
  have hplain : ∀ c ∈ hexDigits, isWhitespace c = false ∧ c ≠ ',' := by simp [hexDigits, isWhitespace]
  exact hplain c (hhex.digits bytes c hc)

theorem trim_encode (bytes : Bytes) : trim (hex.encode bytes) = hex.encode bytes := by
  have hplain := encode_plain hhex bytes
  have hfront : ∀ l : List Char, (∀ c ∈ l, isWhitespace c = false) → l.dropWhile isWhitespace = l := by
    intro l hl
    cases l with
    | nil => rfl
    | cons c l => rw [List.dropWhile_cons, hl c List.mem_cons_self, if_neg Bool.false_ne_true]
  unfold trim
  rw [hfront _ fun c hc => (hplain c hc).1, hfront _ fun c hc => (hplain c (List.mem_reverse.mp hc)).1,
    List.reverse_reverse]

theorem parseHash_encode (h : Hash) : parseHash hex (hex.encode h.bytes) = .ok h := by
  unfold parseHash
  rw [trim_encode hhex, hhex.decode_encode]
  simp only [toArray32_bytes]

theorem parse_printed {hs : List Hash} (hne : hs ≠ []) :
    (([','].intercalate (hs.map fun h => hex.encode h.bytes)).splitOn ',').mapM (parseHash hex) = .ok hs := by
  rw [List.splitOn_intercalate]
  · clear hne
    induction hs with
    | nil => rfl
    | cons h hs ih =>
      rw [List.map_cons, List.mapM_cons, ih, parseHash_encode hhex]
      rfl
  · intro l hl
    obtain ⟨h, -, rfl⟩ := List.mem_map.mp hl
    exact fun hmem => (encode_plain hhex h.bytes _ hmem).2 rfl
  · simpa using hne

end

/-! ## Store -/

section

variable {hex : Hex} {rs : ReedSolomon} {sha256 : Bytes → Hash} {codec : Codec} {b : Build}

theorem expect_ok {α : Type} {x : Outcome α} {a : α} (h : expect x = .ok a) : x = .ok a := by
  cases x with
  | ok => exact congrArg Except.ok (Except.ok.inj h)
  | error => cases h

theorem orExit_ok {α : Type} {what : TesseraError → ExitError} {x : Outcome α} {a : α} (h : orExit what x = .ok a) :
    x = .ok a := by
  cases x with
  | ok => exact congrArg Except.ok (Except.ok.inj h)
  | error f => cases f <;> cases h

theorem stop_bind_ok {α β : Type} {x : Except Stop α} {f : α → Except Stop β} {r : β} (h : x >>= f = .ok r) :
    ∃ a, x = .ok a ∧ f a = .ok r := by
  cases x with
  | error => cases h
  | ok a => exact ⟨a, rfl, h⟩

theorem cmdStore_ok {env : StoreEnv} {data : VecU8} {node : Node} {d p : UInt64} {printed : RetrievalMetadata}
    (h : cmdStore hex rs sha256 codec b env (.ok data) (.ok node) d p = .ok printed) :
    ∃ config r st, ErasureConfig.new b d p = .ok config ∧
      doStoreTessera rs sha256 codec b env node data config = (.ok r, st) ∧
      printed = ⟨[','].intercalate (r.chunkHashes.map fun h => hex.encode h.bytes), r.config.dataShards,
        r.config.parityShards, r.originalLen⟩ := by
  unfold cmdStore at h
  obtain ⟨_, hdata, h⟩ := stop_bind_ok h
  obtain ⟨_, hnode, h⟩ := stop_bind_ok h
  obtain ⟨config, hconfig, h⟩ := stop_bind_ok h
  obtain ⟨r, hr, hprinted⟩ := stop_bind_ok h
  cases hdata
  cases hnode
  exact ⟨config, r, _, expect_ok hconfig, Prod.fst_eq_iff.mp (orExit_ok hr), (Except.ok.inj hprinted).symm⟩

theorem nonempty_of_store {config : ErasureConfig}
    (hreject : Encoding.RejectsEmpty rs config.dataShards.toNat config.parityShards.toNat) {env : StoreEnv}
    {data : VecU8} {node : Node} {r : StoreTesseraResult} {st : StoreState}
    (hstore : doStoreTessera rs sha256 codec b env node data config = (.ok r, st)) : data.val ≠ [] := by
  intro hnil
  obtain ⟨-, enc, -, henc, -⟩ := Store.doStoreTessera_ok hstore
  rw [hnil] at henc
  exact Encoding.encodeBlocks_nil hreject _ enc henc

/-! ## Get -/

theorem cmdGet_count {net manifestNet : Net} {lookup : Node → Node} {bootstrapped : Outcome Node}
    {written : Outcome Unit} {hashes : List Char} {d p len : UInt64} {config : ErasureConfig} {hs : List Hash}
    {expected : Nat} (hparse : (hashes.splitOn ',').mapM (parseHash hex) = .ok hs)
    (hnew : ErasureConfig.new b d p = .ok config) (htotal : config.totalShards b = .ok expected) :
    cmdGet hex rs sha256 codec b net manifestNet lookup bootstrapped written hashes d p len =
      if hs.length ≠ expected then .error (.exit (.hashCount expected hs.length)) else do
        let node ← orExit .bootstrapFailed bootstrapped
        let data ← orExit .retrieveFailed
          (doRetrieveTessera rs sha256 codec b net manifestNet lookup ⟨hs, config, len, 0, none⟩ node).1
        expect written
        return data := by
  unfold cmdGet
  simp only [hparse, hnew, htotal, expect, bind, Except.bind]

/-! ## One block -/

theorem blocks_one {len : Nat} (hpos : 0 < len) : divCeil len defaultBlockSize = 1 ↔ len ≤ defaultBlockSize := by
  have hle := le_divCeil_mul len defaultBlockSize Store.defaultBlockSize_pos
  have hlt := divCeil_mul_lt len defaultBlockSize Store.defaultBlockSize_pos
  have hone := divCeil_pos len defaultBlockSize hpos Store.defaultBlockSize_pos
  unfold defaultBlockSize at hle hlt hone ⊢
  omega

theorem sliceAt_zero {data : Bytes} {blockSize : Nat} (h : data.length ≤ blockSize) : sliceAt data blockSize 0 = data := by
  rw [Erasure.sliceAt_eq, slice, Nat.zero_mul, List.drop_zero, List.take_of_length_le h]

section

variable {config : ErasureConfig} {data : VecU8} {r : StoreTesseraResult} {enc : EncodedBlocks}

theorem hashes_length (hs : Retrieve.Stored rs sha256 b data config r enc) : r.chunkHashes.length =
    divCeil data.val.length defaultBlockSize * (config.dataShards.toNat + config.parityShards.toNat) := by
  rw [hs.hashes, List.length_map, hs.chunks_length, hs.blocks_length, hs.originalLen, hs.blockSize]

theorem hashes_length_iff (hs : Retrieve.Stored rs sha256 b data config r enc) :
    r.chunkHashes.length = config.dataShards.toNat + config.parityShards.toNat ↔
      data.val.length ≤ defaultBlockSize := by
  rw [hashes_length hs, ← blocks_one (List.length_pos_of_ne_nil hs.nonempty)]
  constructor
  · intro h
    exact Nat.eq_of_mul_eq_mul_right hs.valid.total_pos (h.trans (Nat.one_mul _).symm)
  · intro h
    rw [h, Nat.one_mul]

/-- All chunks of one block decode without a block size. -/
theorem decode_one (hs : Retrieve.Stored rs sha256 b data config r enc)
    (hfits : data.val.length ≤ defaultBlockSize) {shards : List (Option Bytes)}
    (hkept : Erasure.Kept (encodedChunks rs sha256 b data config) shards) (hall : ∀ s ∈ shards, s.isSome) :
    decodeStage rs b shards config data.val.length 0 = .ok data.val := by
  have hblocks := hs.spec.blocks
  rw [(blocks_one (List.length_pos_of_ne_nil hs.nonempty)).mpr hfits] at hblocks
  obtain ⟨block, hblock⟩ : ∃ block, enc.blocks = [block] :=
    List.length_eq_one_iff.mp hblocks.length_eq.symm
  rw [hblock] at hblocks
  have hspec := (List.forall₂_cons.mp hblocks).1
  rw [sliceAt_zero hfits] at hspec
  rw [hs.chunks, hblock, List.flatMap_singleton] at hkept
  have hcount : shards.countP Option.isSome = shards.length := List.countP_eq_length.mpr hall
  refine hspec.decodes shards hkept ?_
  rw [hcount, ← hkept.length_eq, hspec.chunks_length]
  exact Nat.le_add_right _ _

end

/-- Every chunk can be had when it is looked for. -/
def AllAvailable (sha256 : Bytes → Hash) (b : Build) (net : Net) (hashes : List Hash) (node : Node) : Prop :=
  ∀ j hash, hashes[j]? = some hash →
    Retrieve.Obtainable sha256 net (Retrieve.nodeAt sha256 b net hashes node j) j hash

theorem all_fetched {net : Net} {node : Node} {chunks : List Bytes}
    (hinj : Set.InjOn sha256 (Retrieve.Involved sha256 b net (chunks.map sha256) node chunks))
    (hne : ∀ c ∈ chunks, c ≠ []) (havail : AllAvailable sha256 b net (chunks.map sha256) node) :
    ∀ s ∈ (fetchChunks sha256 b net 0 (chunks.map sha256) node).1, s.isSome := by
  intro s hs
  obtain ⟨j, hj, rfl⟩ := List.getElem_of_mem hs
  have hj' : j < (chunks.map sha256).length := by rwa [Retrieve.fetchChunks_length] at hj
  have hhash : (chunks.map sha256)[j]? = some (chunks.map sha256)[j] := List.getElem?_eq_getElem hj'
  obtain ⟨x, hx, hsome⟩ := Retrieve.fetchChunks_isSome hhash (havail j _ hhash)
    (Retrieve.empty_answer_ne hinj hne hhash)
  rw [List.getElem?_eq_getElem hj] at hx
  rwa [Option.some.inj hx]

end

/-- While all chunks are available, `cmd_get` with what `cmd_store` printed writes the content of the file back
just when it fits in one block. -/
theorem get_writes_back_iff (hex : Hex) (hhex : Documented hex) (rs : ReedSolomon) (sha256 : Bytes → Hash)
    (codec : Codec) (b : Build) (d p : UInt64) (hcrate : Erasure.Documented rs d.toNat p.toNat)
    (hreject : Encoding.RejectsEmpty rs d.toNat p.toNat) (env : StoreEnv) (data : VecU8) (before : Node)
    (printed : RetrievalMetadata)
    (hstore : cmdStore hex rs sha256 codec b env (.ok data) (.ok before) d p = .ok printed)
    (net manifestNet : Net) (lookup : Node → Node) (node : Node)
    (hinj : Set.InjOn sha256 (Retrieve.Involved sha256 b net
      ((encodedChunks rs sha256 b data ⟨d, p⟩).map sha256) node (encodedChunks rs sha256 b data ⟨d, p⟩)))
    (havail : AllAvailable sha256 b net ((encodedChunks rs sha256 b data ⟨d, p⟩).map sha256) node) :
    cmdGet hex rs sha256 codec b net manifestNet lookup (.ok node) (.ok ()) printed.hashes printed.dataShards
      printed.parityShards printed.originalLen = .ok data.val ↔ data.val.length ≤ defaultBlockSize := by
  obtain ⟨config, r, st, hnew, hstored, rfl⟩ := cmdStore_ok hstore
  obtain ⟨rfl, -⟩ := Erasure.new_accepts hnew
  have hne := nonempty_of_store hreject hstored
  obtain ⟨enc, hs⟩ := Retrieve.stored_of_store hnew hcrate hne hstored
  have hparse := parse_printed hhex hs.chunkHashes_ne
  dsimp only
  rw [hs.config_eq]
  rw [cmdGet_count hparse hnew (hs.valid.totalShards b)]
  by_cases hfits : data.val.length ≤ defaultBlockSize
  · have hlen := (hashes_length_iff hs).mpr hfits
    rw [if_neg (not_not.mpr hlen)]
    refine iff_of_true ?_ hfits
    have hget : (doRetrieveTessera rs sha256 codec b net manifestNet lookup
        ⟨r.chunkHashes, ⟨d, p⟩, r.originalLen, 0, none⟩ node).1 = .ok data.val := by
      rw [Retrieve.doRetrieveTessera_inline (r := ⟨r.chunkHashes, ⟨d, p⟩, r.originalLen, 0, none⟩) hs.chunkHashes_ne]
      simp only [doRetrieveTesseraInner, hs.originalLen, hs.hashes]
      exact decode_one hs hfits (Retrieve.fetchChunks_kept hinj) (all_fetched hinj hs.chunks_ne havail)
    simp only [orExit, expect, bind, Except.bind, hget, pure, Except.pure]
  · have hlen := fun h => hfits ((hashes_length_iff hs).mp h)
    rw [if_pos hlen]
    exact iff_of_false (by rintro ⟨⟩) hfits

/-! ## A crate, a node and two files -/

def digit (n : Nat) : Char := hexDigits.getD n '0'

def readHex : List Char → Except String Bytes
  | [] => .ok []
  | [_] => .error "Odd number of digits"
  | hi :: lo :: rest => match hexDigits.idxOf? hi, hexDigits.idxOf? lo with
    | some x, some y => (readHex rest).map fun bytes => UInt8.ofNat (16 * x + y) :: bytes
    | _, _ => .error "Invalid character"

def lowerHex : Hex where
  encode bytes := bytes.flatMap fun x => [digit (x.toNat / 16), digit (x.toNat % 16)]
  decode := readHex

theorem digit_mem : ∀ n < 16, digit n ∈ hexDigits := by decide

theorem idxOf_digit : ∀ n < 16, hexDigits.idxOf? (digit n) = some n := by decide

theorem lowerHex_documented : Documented lowerHex where
  digits bytes c hc := by
    obtain ⟨x, -, hc⟩ := List.mem_flatMap.mp hc
    have hx := x.toNat_lt
    rcases List.mem_pair.mp hc with rfl | rfl
    · exact digit_mem _ (by omega)
    · exact digit_mem _ (by omega)
  decode_encode bytes := by
    induction bytes with
    | nil => rfl
    | cons x bytes ih =>
      have hx := x.toNat_lt
      have hbyte : UInt8.ofNat (16 * (x.toNat / 16) + x.toNat % 16) = x := by
        rw [Nat.div_add_mod, UInt8.ofNat_toNat]
      change readHex (digit (x.toNat / 16) :: digit (x.toNat % 16) :: lowerHex.encode bytes) = _
      rw [readHex, idxOf_digit _ (by omega), idxOf_digit _ (by omega)]
      dsimp only
      rw [show readHex (lowerHex.encode bytes) = .ok bytes from ih, hbyte]
      rfl

/-- A node as `make_ephemeral_node` builds it, with room for a gigabyte. -/
def ephemeralNode : Node := { Store.nodeWith [] with chunks := ChunkStore.new 1000000000 Lib.Files.Dir.empty }

theorem toVec_length (m : TesseraManifest) (hhashes : ∀ h ∈ m.h, h.length = 32) :
    m.toVec.length ≤ 46 + 293 * m.h.length := by
  have huint (n : Nat) : (uint n).length ≤ 9 := by
    rw [length_uint]
    exact uintSize_le n
  have hh : (encodeHashes m.h).length ≤ 5 + m.h.length * 293 := by
    have hle := length_array_le 293 (m.h.map fun h => array (h.map fun x => uint x.toNat)) (by
      intro x hx
      obtain ⟨h, hmem, rfl⟩ := List.mem_map.mp hx
      have hone := length_array_le 9 (h.map fun x => uint x.toNat) (by
        intro y hy
        obtain ⟨x, -, rfl⟩ := List.mem_map.mp hy
        exact huint _)
      rw [List.length_map, hhashes h hmem] at hone
      exact hone)
    rwa [List.length_map] at hle
  have hd := huint m.d.toNat
  have hp := huint m.p.toNat
  have hl := huint m.l.toNat
  have hb := huint m.b.toNat
  unfold TesseraManifest.toVec
  rw [length_array]
  split_ifs
  · simp [headSize]
    omega
  · simp [headSize]
    omega

theorem encodedHashes_length {rs : ReedSolomon} (sha256 : Bytes → Hash) (b : Build) {config : ErasureConfig}
    (h : Erasure.Valid rs config) (data : VecU8) (hne : data.val ≠ []) :
    (Store.encodedHashes rs sha256 b data config).length =
      divCeil data.val.length defaultBlockSize * (config.dataShards.toNat + config.parityShards.toNat) := by
  obtain ⟨enc, henc, hspec⟩ : ∃ enc, encodeBlocks rs sha256 b data config defaultBlockSize = .ok enc ∧
      Erasure.BlocksSpec rs sha256 b data config defaultBlockSize enc :=
    Erasure.encodeBlocks_spec h data hne _ Store.defaultBlockSize_pos
  unfold Store.encodedHashes
  rw [henc]
  dsimp only
  rw [Retrieve.blocks_chunkHashes hspec, List.length_map, Retrieve.chunks_length hspec]

/-- A crate with one data shard that refuses empty shards. -/
def oneShard : ReedSolomon := Encoding.strict Erasure.copies

theorem oneShard_valid : Erasure.Valid oneShard ⟨1, 1⟩ where
  data_pos := by decide
  parity_pos := by decide
  sum_le := by decide
  crate := Encoding.strict_documented (by decide) (Erasure.copies_documented 1)

theorem store_ephemeral (data : VecU8) (hne : data.val ≠ []) (hlen : data.val.length ≤ 1000000) :
    ∃ printed, cmdStore lowerHex oneShard Sha256.digest (.knowing [] []) .release (Store.still 1000) (.ok data)
      (.ok ephemeralNode) 1 1 = .ok printed := by
  have hblocks : divCeil data.val.length defaultBlockSize ≤ 4 :=
    divCeil_mono defaultBlockSize Store.defaultBlockSize_pos hlen
  have hcount := encodedHashes_length Sha256.digest .release oneShard_valid data hne
  have hmanifest := toVec_length
    (storeManifest (Store.encodedHashes oneShard Sha256.digest .release data ⟨1, 1⟩) ⟨1, 1⟩ data.val.length) (by
      intro h hh
      obtain ⟨hash, -, rfl⟩ := List.mem_map.mp hh
      exact hash.len)
  rw [show (storeManifest (Store.encodedHashes oneShard Sha256.digest .release data ⟨1, 1⟩) ⟨1, 1⟩
    data.val.length).h.length = _ from List.length_map _, hcount] at hmanifest
  have hroom : Room.HasRoom ephemeralNode.chunks
      (divCeil data.val.length defaultBlockSize * ((1 + 1) * divCeil defaultBlockSize 1) + (46 + 293 * 8)) := by
    have hsize : divCeil defaultBlockSize 1 = 262144 := by decide
    refine ⟨?_, by decide⟩
    change 0 + (divCeil data.val.length defaultBlockSize * ((1 + 1) * divCeil defaultBlockSize 1) + _) ≤ 1000000000
    rw [hsize]
    omega
  have hsmall : 46 + 293 * (divCeil data.val.length defaultBlockSize * (1 + 1)) ≤ 46 + 293 * 8 := by omega
  have henv : Room.Healthy (Store.still 1000) := ⟨fun _ => rfl, rfl⟩
  obtain ⟨r, st, hstore⟩ := Room.doStoreTessera_hasRoom Sha256.digest (.knowing [] []) .release oneShard_valid henv
    hne (by decide) (Nat.le_trans hmanifest hsmall) hroom
  refine ⟨⟨[','].intercalate (r.chunkHashes.map fun h => lowerHex.encode h.bytes), r.config.dataShards,
    r.config.parityShards, r.originalLen⟩, ?_⟩
  unfold cmdStore
  rw [show ErasureConfig.new .release 1 1 = .ok ⟨1, 1⟩ from rfl]
  simp only [expect, orExit, bind, Except.bind, hstore, pure, Except.pure]

def oneByte : VecU8 := ⟨[7], by decide⟩

/-- One byte more than a block. -/
def twoBlocks : VecU8 := ⟨List.replicate 262145 0, by rw [List.length_replicate]; decide⟩

theorem sevens_files (i : Nat) : ∀ f ∈ (Retrieve.nodeAt Sha256.digest .release TokenSafety.sevens
    [Sha256.digest [7], Sha256.digest [7]] (Store.nodeWith [Routing.peerOf 1]) i).chunks.dir.files,
    f.content = [7] := by
  match i with
  | 0 => decide +kernel
  | 1 => decide +kernel
  | i + 2 =>
    rw [Retrieve.nodeAt_of_le (fun _ _ => rfl) (by simp)]
    decide +kernel

/-- One byte, and a peer that has its chunk. -/
theorem get_writes_back_iff_oneByte : ∃ printed,
    cmdStore lowerHex oneShard Sha256.digest (.knowing [] []) .release (Store.still 1000) (.ok oneByte)
      (.ok ephemeralNode) 1 1 = .ok printed ∧
    cmdGet lowerHex oneShard Sha256.digest (.knowing [] []) .release TokenSafety.sevens TokenSafety.sevens id
      (.ok (Store.nodeWith [Routing.peerOf 1])) (.ok ()) printed.hashes printed.dataShards printed.parityShards
      printed.originalLen = .ok [7] := by
  obtain ⟨printed, hstore⟩ := store_ephemeral oneByte (by decide) (by decide)
  have hchunks : encodedChunks oneShard Sha256.digest .release oneByte ⟨1, 1⟩ = [[7], [7]] := by decide +kernel
  refine ⟨printed, hstore, ?_⟩
  apply (get_writes_back_iff lowerHex lowerHex_documented oneShard Sha256.digest (.knowing [] []) .release 1 1
    (Encoding.strict_documented (by decide) (Erasure.copies_documented 1)) (Encoding.strict_rejects _ 1 1) _ _ _ _
    hstore TokenSafety.sevens TokenSafety.sevens id (Store.nodeWith [Routing.peerOf 1]) ?_ ?_).mpr (by decide)
  · rw [hchunks]
    have hseven : ∀ x ∈ Retrieve.Involved Sha256.digest .release TokenSafety.sevens
        ([[7], [7]].map Sha256.digest) (Store.nodeWith [Routing.peerOf 1]) [[7], [7]], x = [7] := by
      rintro x (hx | ⟨i, peer, hx⟩ | ⟨i, f, hf, rfl⟩)
      · simpa using hx
      · exact (Option.some.inj hx).symm
      · exact sevens_files i f hf
    intro x hx y hy _
    rw [hseven x hx, hseven y hy]
  · rw [hchunks]
    intro j hash hhash
    apply Retrieve.Obtainable.nodeAt (fun _ _ => rfl)
    have hash_eq : hash = Sha256.digest [7] := by
      have hmem := List.mem_of_getElem? hhash
      simpa using hmem
    rw [hash_eq]
    exact Or.inr ⟨Routing.peerOf 1, by decide +kernel, [7], rfl, rfl⟩

/-- A file of two blocks is stored, and four hashes are printed. The get command takes two. -/
theorem two_blocks_are_not_written_back : ∃ printed,
    cmdStore lowerHex oneShard Sha256.digest (.knowing [] []) .release (Store.still 1000) (.ok twoBlocks)
      (.ok ephemeralNode) 1 1 = .ok printed ∧
    ∀ net manifestNet lookup bootstrapped written,
      cmdGet lowerHex oneShard Sha256.digest (.knowing [] []) .release net manifestNet lookup bootstrapped written
        printed.hashes printed.dataShards printed.parityShards printed.originalLen =
          .error (.exit (.hashCount 2 4)) := by
  have hlength : twoBlocks.val.length = 262145 := List.length_replicate
  have hne : twoBlocks.val ≠ [] := List.ne_nil_of_length_pos (by omega)
  obtain ⟨printed, hstore⟩ := store_ephemeral twoBlocks hne (by omega)
  refine ⟨printed, hstore, fun net manifestNet lookup bootstrapped written => ?_⟩
  obtain ⟨config, r, st, hnew, hstored, rfl⟩ := cmdStore_ok hstore
  obtain ⟨rfl, -⟩ := Erasure.new_accepts hnew
  obtain ⟨enc, hs⟩ := Retrieve.stored_of_store hnew oneShard_valid.crate hne hstored
  have hcount : r.chunkHashes.length = 4 := by
    rw [hashes_length hs, hlength]
    decide
  dsimp only
  rw [hs.config_eq, cmdGet_count (parse_printed lowerHex_documented hs.chunkHashes_ne) hnew
    (oneShard_valid.totalShards .release), hcount]
  rfl

end TesserasDht.Commands
