import TesserasDht.Code.Serde
import TesserasDht.Store

/-!
# Tokens and manifests come back

The value of a token is a map without the fields that are zero or empty, and that of a manifest an
array that may lack its last field.
-/

open Lib.MessagePack

namespace TesserasDht.Tokens

open Serde

/-- What is read is what was written. -/
structure Faithful (S : Serde) : Prop where
  value : ∀ v, S.decode (S.encode v) = .ok v
  base64 : ∀ bytes, S.fromBase64 (S.toBase64 bytes) = .ok bytes

/-! ## Fields -/

theorem mapM_map_some {α β : Type} {f : α → β} {g : β → Option α} (h : ∀ x, g (f x) = some x)
    (l : List α) : (l.map f).mapM g = some l := by
  induction l with
  | nil => rfl
  | cons x xs ih => rw [List.map_cons, List.mapM_cons, h, ih]; rfl

theorem toByte_uint (x : UInt8) : toByte (.uint x.toUInt64) = some x := by
  have hlt : x.toUInt64.toNat < 256 := x.toNat_lt
  rw [toByte, if_pos hlt, UInt8.toUInt8_toUInt64]

theorem toBytes_ofBytes (v : Bytes) : toBytes (ofBytes v) = some v := mapM_map_some toByte_uint v

theorem toHashes_ofHashes (hs : List Bytes) : toHashes (ofHashes hs) = some hs :=
  mapM_map_some toBytes_ofBytes hs

/-! ## Manifests -/

theorem manifest_fromValue (m : TesseraManifest) :
    TesseraManifest.fromValue m.toValue = some m := by
  obtain ⟨h, d, p, l, b⟩ := m
  by_cases hb : b = 0
  · subst hb
    simp [TesseraManifest.fromValue, TesseraManifest.toValue, field, required, defaulted, toWord,
      toHashes_ofHashes]
  · simp [TesseraManifest.fromValue, TesseraManifest.toValue, hb, field, required, defaulted, toWord,
      toHashes_ofHashes]

/-! ## Tokens -/

/-- The entry of a field, if it is not skipped. -/
def entryOf (skip : Prop) [Decidable skip] (c : Char) (v : Value) : List (List UInt8 × Value) :=
  if skip then [] else [(name c, v)]

theorem filter_entryOf (skip : Prop) [Decidable skip] (c c' : Char) (v : Value) :
    (entryOf skip c v).filter (fun x => x.1 = name c') =
      if name c = name c' then entryOf skip c v else [] := by
  unfold entryOf
  split_ifs <;> simp_all

/-- The entries of a token. -/
def entries (t : StoreTesseraResultToken) : List (List UInt8 × Value) :=
  entryOf (t.h = []) 'h' (ofHashes t.h) ++ entryOf (t.d = 0) 'd' (.uint t.d) ++
    entryOf (t.p = 0) 'p' (.uint t.p) ++ entryOf (t.l = 0) 'l' (.uint t.l) ++
    entryOf (t.b = 0) 'b' (.uint t.b) ++ entryOf (t.m = []) 'm' (ofBytes t.m)

theorem filter_entries (t : StoreTesseraResultToken) :
    (entries t).filter (fun x => x.1 = name 'h') = entryOf (t.h = []) 'h' (ofHashes t.h) ∧
    (entries t).filter (fun x => x.1 = name 'd') = entryOf (t.d = 0) 'd' (.uint t.d) ∧
    (entries t).filter (fun x => x.1 = name 'p') = entryOf (t.p = 0) 'p' (.uint t.p) ∧
    (entries t).filter (fun x => x.1 = name 'l') = entryOf (t.l = 0) 'l' (.uint t.l) ∧
    (entries t).filter (fun x => x.1 = name 'b') = entryOf (t.b = 0) 'b' (.uint t.b) ∧
    (entries t).filter (fun x => x.1 = name 'm') = entryOf (t.m = []) 'm' (ofBytes t.m) := by
  simp only [entries, List.filter_append, filter_entryOf]
  refine ⟨?_, ?_, ?_, ?_, ?_, ?_⟩ <;> simp [name]

theorem field_defaulted {α : Type} (t : StoreTesseraResultToken) {skip : Prop} [Decidable skip]
    {c : Char} {v : Value} {default a : α} {read : Value → Option α} (count i : Nat)
    (hentries : (entries t).filter (fun x => x.1 = name c) = entryOf skip c v)
    (hread : read v = some a) (hskip : skip → a = default) :
    (field t.toValue count i c).bind (defaulted default read) = some a := by
  have hmap : t.toValue = .map (entries t) := rfl
  rw [hmap]
  unfold field
  dsimp only
  rw [hentries]
  unfold entryOf
  split_ifs with h
  · rw [hskip h]
    rfl
  · exact hread

theorem token_fromValue (t : StoreTesseraResultToken) :
    StoreTesseraResultToken.fromValue t.toValue = some t := by
  obtain ⟨eh, ed, ep, el, eb, em⟩ := filter_entries t
  have hh := field_defaulted t 6 0 eh (toHashes_ofHashes t.h) id
  have hd := field_defaulted t 6 1 ed (rfl : toWord (.uint t.d) = some t.d) id
  have hp := field_defaulted t 6 2 ep (rfl : toWord (.uint t.p) = some t.p) id
  have hl := field_defaulted t 6 3 el (rfl : toWord (.uint t.l) = some t.l) id
  have hb := field_defaulted t 6 4 eb (rfl : toWord (.uint t.b) = some t.b) id
  have hm := field_defaulted t 6 5 em (toBytes_ofBytes t.m) id
  have hread : StoreTesseraResultToken.fromValue t.toValue =
      ((field t.toValue 6 0 'h').bind (defaulted [] toHashes)).bind fun h =>
      ((field t.toValue 6 1 'd').bind (defaulted 0 toWord)).bind fun d =>
      ((field t.toValue 6 2 'p').bind (defaulted 0 toWord)).bind fun p =>
      ((field t.toValue 6 3 'l').bind (defaulted 0 toWord)).bind fun l =>
      ((field t.toValue 6 4 'b').bind (defaulted 0 toWord)).bind fun b =>
      ((field t.toValue 6 5 'm').bind (defaulted [] toBytes)).bind fun m =>
        some { h, d, p, l, b, m } := by
    simp only [StoreTesseraResultToken.fromValue, Option.bind_eq_bind, Option.bind_assoc, Option.pure_def]
  rw [hread, hh, hd, hp, hl, hb, hm]
  rfl

/-! ## Texts -/

theorem parseHashes_bytes (hs : List Hash) : parseHashes (hs.map Bytes32.bytes) = .ok hs := by
  induction hs with
  | nil => rfl
  | cons h hs ih =>
    unfold parseHashes at ih ⊢
    rw [List.map_cons, List.mapM_cons, ih, toArray32_bytes]
    rfl

theorem new_again {b : Build} {d p : UInt64} {config : ErasureConfig}
    (h : ErasureConfig.new b d p = .ok config) :
    ErasureConfig.new b config.dataShards config.parityShards = .ok config := by
  obtain ⟨rfl, -⟩ := Erasure.new_accepts h
  exact h

section

variable {S : Serde} (hS : Faithful S) {b : Build}

include hS

theorem decodeToken_fmt (r : StoreTesseraResult) :
    S.codec.decodeBase64 (r.fmt S) = .ok (S.encode r.token.toValue) ∧
      S.codec.decodeToken (S.encode r.token.toValue) = .ok r.token := by
  refine ⟨hS.base64 _, ?_⟩
  change S.fromSlice StoreTesseraResultToken.fromValue _ = _
  rw [Serde.fromSlice, hS.value]
  dsimp only
  rw [token_fromValue]

theorem fromStr_fmt (r : StoreTesseraResult) :
    StoreTesseraResult.fromStr S.codec b (r.fmt S) =
      if r.token.m ≠ [] then
        match toArray32 r.token.m with
        | none => fail (.serialization "manifest hash must be 32 bytes")
        | some mh => do
          let config ← ErasureConfig.new b 10 4
          return { chunkHashes := [], config, originalLen := 0, blockSize := 0,
                   manifestHash := some mh }
      else do
        let chunkHashes ← parseHashes r.token.h
        let config ← ErasureConfig.new b r.token.d r.token.p
        return { chunkHashes, config, originalLen := r.token.l, blockSize := r.token.b,
                 manifestHash := none } := by
  obtain ⟨hbytes, htoken⟩ := decodeToken_fmt hS r
  unfold StoreTesseraResult.fromStr
  rw [hbytes]
  change orSerialization "msgpack" (S.codec.decodeToken _) >>= _ = _
  rw [htoken]
  rfl

theorem fromStr_fmt_inline {r : StoreTesseraResult} (hnone : r.manifestHash = none)
    {d p : UInt64} (hnew : ErasureConfig.new b d p = .ok r.config) :
    StoreTesseraResult.fromStr S.codec b (r.fmt S) = .ok r := by
  have htoken : r.token = ⟨r.chunkHashes.map Bytes32.bytes, r.config.dataShards,
      r.config.parityShards, r.originalLen, r.blockSize, []⟩ := by
    rw [StoreTesseraResult.token, hnone]
  rw [fromStr_fmt hS, htoken, if_neg (not_not.mpr rfl), parseHashes_bytes]
  change ErasureConfig.new b _ _ >>= _ = _
  rw [new_again hnew, ← hnone]
  rfl

theorem fromStr_fmt_manifest {r : StoreTesseraResult} {mh : Hash} (hmh : r.manifestHash = some mh) :
    StoreTesseraResult.fromStr S.codec b (r.fmt S) = .ok ⟨[], .default, 0, 0, some mh⟩ := by
  have htoken : r.token = ⟨[], 0, 0, 0, 0, mh.bytes⟩ := by
    rw [StoreTesseraResult.token, hmh]
  have hne : mh.bytes ≠ [] := List.ne_nil_of_length_pos (by rw [mh.len]; decide)
  rw [fromStr_fmt hS, htoken, if_pos hne, toArray32_bytes]
  cases b <;> rfl

/-! ## Manifests of a store -/

theorem parseManifest_storeManifest (hashes : List Hash) {config : ErasureConfig} (len : Nat)
    {d p : UInt64} (hnew : ErasureConfig.new b d p = .ok config) :
    parseManifest S.codec b (S.codec.encodeManifest (storeManifest hashes config len)) =
      .ok ⟨hashes, config, .ofNat len, .ofNat defaultBlockSize, none⟩ := by
  have hdecode : S.codec.decodeManifest (S.codec.encodeManifest (storeManifest hashes config len)) =
      .ok (storeManifest hashes config len) := by
    change S.fromSlice TesseraManifest.fromValue (S.encode _) = _
    rw [Serde.fromSlice, hS.value]
    dsimp only
    rw [manifest_fromValue]
  unfold parseManifest
  rw [hdecode]
  change parseHashes (hashes.map Bytes32.bytes) >>= _ = _
  rw [parseHashes_bytes]
  change ErasureConfig.new b config.dataShards config.parityShards >>= _ = _
  rw [new_again hnew]
  rfl

end

theorem doStoreTessera_put {rs : ReedSolomon} {sha256 : Bytes → Hash} {codec : Codec} {b : Build}
    {env : StoreEnv} {node : Node} {data : VecU8} {config : ErasureConfig} {r : StoreTesseraResult}
    {st : StoreState} (h : doStoreTessera rs sha256 codec b env node data config = (.ok r, st)) :
    ∃ before : ChunkStore, ∃ mh bytes,
      bytes = codec.encodeManifest (storeManifest r.chunkHashes config data.val.length) ∧
      before.put sha256 b env.manifestFaults mh bytes = (.ok (), st.node.chunks) ∧
      r = ⟨r.chunkHashes, config, .ofNat data.val.length, .ofNat defaultBlockSize, some mh⟩ := by
  unfold doStoreTessera at h
  dsimp only at h
  split at h
  · cases h
  next st' hblocks =>
    split at h
    · cases h
    next chunks hput =>
      cases h
      exact ⟨_, _, _, rfl, hput, rfl⟩

/-! ## Both -/

/-- A token without a manifest is read back whole. One with a manifest leads to it: whatever fetch
gives the bytes that the store put under its hash, the retrieval goes on with the numbers and the
hashes of the store. -/
theorem tokens_come_back (S : Serde) (hS : Faithful S) (b : Build) :
    (∀ r : StoreTesseraResult, r.manifestHash = none →
      (∃ d p, ErasureConfig.new b d p = .ok r.config) →
      StoreTesseraResult.fromStr S.codec b (r.fmt S) = .ok r) ∧
    ∀ (rs : ReedSolomon) (sha256 : Bytes → Hash) (env : StoreEnv) (node : Node) (data : VecU8)
      (config : ErasureConfig) (r : StoreTesseraResult) (st : StoreState),
      (∃ d p, ErasureConfig.new b d p = .ok config) →
      doStoreTessera rs sha256 S.codec b env node data config = (.ok r, st) →
      ∃ (t : StoreTesseraResult) (before : ChunkStore) (mh : Hash) (bytes : Bytes),
        before.put sha256 b env.manifestFaults mh bytes = (.ok (), st.node.chunks) ∧
        r.manifestHash = some mh ∧
        StoreTesseraResult.fromStr S.codec b (r.fmt S) = .ok t ∧ t.manifestHash = some mh ∧
        parseManifest S.codec b bytes = .ok { r with manifestHash := none } ∧
        ∀ net manifestNet lookup reader reader',
          fetchManifest sha256 manifestNet lookup mh reader = (.ok bytes, reader') →
          doRetrieveTessera rs sha256 S.codec b net manifestNet lookup t reader =
            doRetrieveTesseraInner rs sha256 b net r.chunkHashes r.config r.originalLen.toNat
              r.blockSize.toNat reader' := by
  constructor
  · rintro r hnone ⟨d, p, hnew⟩
    exact fromStr_fmt_inline hS hnone hnew
  · rintro rs sha256 env node data config r st ⟨d, p, hnew⟩ hstore
    obtain ⟨before, mh, bytes, hbytes, hput, hr⟩ := doStoreTessera_put hstore
    have hmh : r.manifestHash = some mh := by rw [hr]
    have hparse := parseManifest_storeManifest hS r.chunkHashes data.val.length hnew
    rw [← hbytes] at hparse
    refine ⟨_, before, mh, bytes, hput, hmh, fromStr_fmt_manifest hS hmh, rfl, ?_, ?_⟩
    · rw [hparse, hr]
    · intro net manifestNet lookup reader reader' hfetch
      rw [doRetrieveTessera]
      dsimp only
      rw [hfetch]
      dsimp only
      rw [hparse, hr]

/-! ## The crates -/

/-- MessagePack and base64 as the crates write them. -/
def crates : Serde where
  encode := Lib.MessagePack.encode
  decode bytes := match Lib.MessagePack.fromSlice bytes with
    | some v => .ok v
    | none => .error "not a value"
  mismatch _ := "another type"
  toBase64 bytes := String.ofList (Lib.Formats.base64 bytes)
  fromBase64 s := match Lib.Formats.unbase64 s.toList with
    | some bytes => .ok bytes
    | none => .error "not a text"

theorem crates_faithful : Faithful crates where
  value v := by
    simp only [crates, fromSlice_encode]
  base64 bytes := by
    simp only [crates, String.toList_ofList, Lib.Formats.unbase64_base64]

theorem store_seven :
    doStoreTessera Erasure.copies Sha256.digest crates.codec .release (Store.still 1000)
      (Store.nodeWith []) ⟨[7], by decide⟩ ⟨1, 1⟩ =
    (.ok Store.smallResult, (doStoreTessera Erasure.copies Sha256.digest crates.codec .release
      (Store.still 1000) (Store.nodeWith []) ⟨[7], by decide⟩ ⟨1, 1⟩).2) :=
  Prod.fst_eq_iff.mp (by decide +kernel)

/-- A result with two hashes, and the store of one byte. -/
theorem tokens_come_back_seven :
    StoreTesseraResult.fromStr crates.codec .release
      (StoreTesseraResult.fmt crates ⟨Store.smallResult.chunkHashes, ⟨1, 1⟩, 1, 0, none⟩) =
      .ok ⟨Store.smallResult.chunkHashes, ⟨1, 1⟩, 1, 0, none⟩ ∧
    ∃ bytes, parseManifest crates.codec .release bytes =
      .ok { Store.smallResult with manifestHash := none } := by
  obtain ⟨hinline, hstored⟩ := tokens_come_back crates crates_faithful .release
  refine ⟨hinline _ rfl ⟨1, 1, by decide⟩, ?_⟩
  obtain ⟨t, before, mh, bytes, -, -, -, -, hparse, -⟩ :=
    hstored _ _ _ _ _ _ _ _ ⟨1, 1, by decide⟩ store_seven
  exact ⟨bytes, hparse⟩

end TesserasDht.Tokens
