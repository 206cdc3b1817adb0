import TesserasDht.TokenSafety

/-!
# Configurations that pass the check

`ErasureConfig::new` compares the machine sum of the two counts with 256.
-/

namespace TesserasDht.Configurations

open TokenSafety
open Erasure (new_of_fits new_of_overflow_debug new_of_overflow_release new_not_pos)

/-- Both counts are positive, and their sum does not fit in 64 bits: a debug build panics, and a release
build sees a sum of at most 256. -/
def Wraps (b : Build) (d p : UInt64) : Prop :=
  1 ≤ d.toNat ∧ 1 ≤ p.toNat ∧ wordSize ≤ d.toNat + p.toNat ∧
    (b = .debug ∨ d.toNat + p.toNat ≤ wordSize + 256)

/-- `new` succeeds on the counts that a shard code over `GF(2^8)` can have, and does not panic. -/
def Checked (b : Build) (d p : UInt64) : Prop :=
  ((∃ config, ErasureConfig.new b d p = .ok config) ↔
    1 ≤ d.toNat ∧ 1 ≤ p.toNat ∧ d.toNat + p.toNat ≤ 256) ∧ ¬Panics (ErasureConfig.new b d p)

/-- `total_shards` is the sum of the counts, and in range. -/
def InRange (b : Build) (config : ErasureConfig) : Prop :=
  config.totalShards b = .ok (config.dataShards.toNat + config.parityShards.toNat) ∧
    2 ≤ config.dataShards.toNat + config.parityShards.toNat ∧
    config.dataShards.toNat + config.parityShards.toNat ≤ 256

/-! ## One configuration -/

section

variable {b : Build} {d p : UInt64}

theorem not_ok_fail {e : TesseraError} : ¬∃ config : ErasureConfig, (fail e : Outcome ErasureConfig) = .ok config := by
  rintro ⟨config, h⟩
  cases h

theorem not_panics_fail {e : TesseraError} : ¬Panics (fail e : Outcome ErasureConfig) := by
  rintro ⟨x, h⟩
  cases h

theorem checked_iff (b : Build) (d p : UInt64) : Checked b d p ↔ ¬Wraps b d p := by
  unfold Checked Wraps
  by_cases hpos : 1 ≤ d.toNat ∧ 1 ≤ p.toNat
  · obtain ⟨hd, hp⟩ := hpos
    by_cases hsum : d.toNat + p.toNat < wordSize
    · rw [new_of_fits hd hp hsum]
      refine iff_of_true ⟨?_, ?_⟩ (by omega)
      all_goals split_ifs with h
      · exact iff_of_false not_ok_fail (by omega)
      · exact iff_of_true ⟨_, rfl⟩ ⟨hd, hp, by omega⟩
      · exact not_panics_fail
      · rintro ⟨x, hx⟩
        cases hx
    · have hle : wordSize ≤ d.toNat + p.toNat := by omega
      have hlarge : ¬d.toNat + p.toNat ≤ 256 := by
        unfold wordSize at hle
        omega
      cases b with
      | debug =>
        rw [new_of_overflow_debug hd hp hle]
        exact iff_of_false (fun h => h.2 ⟨_, rfl⟩) (fun h => h ⟨hd, hp, hle, Or.inl rfl⟩)
      | release =>
        have hmod : (d.toNat + p.toNat) % wordSize = d.toNat + p.toNat - wordSize := by
          have := d.toNat_lt
          have := p.toNat_lt
          unfold wordSize at hle ⊢
          omega
        rw [new_of_overflow_release hd hp hle, hmod]
        split_ifs with h
        · refine iff_of_true ⟨iff_of_false not_ok_fail (by omega), not_panics_fail⟩ ?_
          rintro ⟨-, -, -, hdebug | hsmall⟩
          · cases hdebug
          · omega
        · refine iff_of_false (fun hc => ?_) (fun hn => hn ⟨hd, hp, hle, Or.inr (by omega)⟩)
          exact hlarge (hc.1.mp ⟨_, rfl⟩).2.2
  · obtain ⟨text, herr⟩ := new_not_pos (b := b) hpos
    rw [herr]
    exact iff_of_true ⟨iff_of_false not_ok_fail (fun h => hpos ⟨h.1, h.2.1⟩), not_panics_fail⟩
      (fun h => hpos ⟨h.1, h.2.1⟩)

theorem inRange_iff {config : ErasureConfig} (h : ErasureConfig.new b d p = .ok config) :
    InRange b config ↔ ¬Wraps b d p := by
  obtain ⟨rfl, hd, hp, hsum⟩ := Erasure.new_accepts h
  rw [← checked_iff]
  constructor
  · rintro ⟨-, -, hle⟩
    refine ⟨iff_of_true ⟨_, h⟩ ⟨hd, hp, hle⟩, ?_⟩
    rintro ⟨x, hx⟩
    cases h.symm.trans hx
  · intro hchecked
    have hle := (hchecked.1.mp ⟨_, h⟩).2.2
    refine ⟨b.add_of_lt (Nat.lt_of_le_of_lt hle (by decide)), ?_, hle⟩
    change 2 ≤ d.toNat + p.toNat
    omega

end

/-! ## Tokens and manifests -/

section

variable {codec : Codec} {b : Build} {r : StoreTesseraResult}

/-- The counts come from an inline token. A token with a manifest hash gets the default ones. -/
theorem inRange_fromStr_iff {text : String} (h : StoreTesseraResult.fromStr codec b text = .ok r) :
    InRange b r.config ↔ ∀ bytes token, codec.decodeBase64 text = .ok bytes →
      codec.decodeToken bytes = .ok token → token.m = [] → ¬Wraps b token.d token.p := by
  obtain ⟨bytes, hbytes, h⟩ := bind_ok h
  obtain ⟨token, htoken, h⟩ := bind_ok h
  have hbytes := orSerialization_ok hbytes
  have htoken := orSerialization_ok htoken
  have honly : (∀ bytes' token', codec.decodeBase64 text = .ok bytes' → codec.decodeToken bytes' = .ok token' →
      token'.m = [] → ¬Wraps b token'.d token'.p) ↔ (token.m = [] → ¬Wraps b token.d token.p) := by
    constructor
    · exact fun hall => hall bytes token hbytes htoken
    · intro hone bytes' token' hbytes' htoken'
      cases hbytes.symm.trans hbytes'
      cases htoken.symm.trans htoken'
      exact hone
  rw [honly]
  split at h
  next hm =>
    split at h
    · cases h
    · obtain ⟨config, hnew, h⟩ := bind_ok h
      cases h
      refine iff_of_true ((inRange_iff hnew).mpr ?_) (fun hnil => absurd hnil hm)
      rintro ⟨-, -, hwide, -⟩
      exact absurd hwide (by decide)
  next hm =>
    obtain ⟨hashes, -, h⟩ := bind_ok h
    obtain ⟨config, hnew, h⟩ := bind_ok h
    cases h
    rw [inRange_iff hnew]
    exact ⟨fun hnot _ => hnot, fun hone => hone (not_not.mp hm)⟩

theorem inRange_parseManifest_iff {data : Bytes} (h : parseManifest codec b data = .ok r) :
    InRange b r.config ↔ ∀ manifest, codec.decodeManifest data = .ok manifest → ¬Wraps b manifest.d manifest.p := by
  obtain ⟨manifest, hmanifest, h⟩ := bind_ok h
  obtain ⟨hashes, -, h⟩ := bind_ok h
  obtain ⟨config, hnew, h⟩ := bind_ok h
  cases h
  rw [inRange_iff hnew]
  have hmanifest := orSerialization_ok hmanifest
  constructor
  · intro hnot manifest' hmanifest'
    cases hmanifest.symm.trans hmanifest'
    exact hnot
  · exact fun hall => hall manifest hmanifest

end

/-- The check is right, and what a token or a manifest gives is in range, just when the machine sum is the
sum or is refused. -/
theorem configurations_iff (codec : Codec) (b : Build) :
    (∀ d p, Checked b d p ↔ ¬Wraps b d p) ∧
    (∀ text r, StoreTesseraResult.fromStr codec b text = .ok r →
      (InRange b r.config ↔ ∀ bytes token, codec.decodeBase64 text = .ok bytes →
        codec.decodeToken bytes = .ok token → token.m = [] → ¬Wraps b token.d token.p)) ∧
    (∀ data r, parseManifest codec b data = .ok r →
      (InRange b r.config ↔ ∀ manifest, codec.decodeManifest data = .ok manifest →
        ¬Wraps b manifest.d manifest.p)) :=
  ⟨checked_iff b, fun _ _ h => inRange_fromStr_iff h, fun _ _ h => inRange_parseManifest_iff h⟩

/-- One data shard and one parity shard, in a token. -/
theorem configurations_iff_one : InRange .release (resultOf 2 1).config := by
  have htext : StoreTesseraResult.fromStr (.knowing [tokenOf 2 1] []) .release (tokenOf 2 1).text =
      .ok (resultOf 2 1) := by decide +kernel
  refine ((configurations_iff _ _).2.1 _ _ htext).mpr fun bytes token _ htoken _ => ?_
  have hone : token = tokenOf 2 1 := by
    simp only [Codec.knowing] at htoken
    split at htoken
    next hfind =>
      cases htoken
      exact List.mem_singleton.mp (List.mem_of_find?_eq_some hfind)
    next => cases htoken
  rw [hone]
  rintro ⟨-, -, hwide, -⟩
  exact absurd hwide (by decide)

/-- `2 ^ 64 - 1` data shards and two parity shards. -/
def wideToken : StoreTesseraResultToken := ⟨[], 18446744073709551615, 2, 0, 0, []⟩

/-- The sum wraps to one: the release build accepts the token, and the debug build panics. -/
theorem wide_token_is_accepted :
    ErasureConfig.new .release 18446744073709551615 2 = .ok ⟨18446744073709551615, 2⟩ ∧
    StoreTesseraResult.fromStr (.knowing [wideToken] []) .release wideToken.text =
      .ok ⟨[], ⟨18446744073709551615, 2⟩, 0, 0, none⟩ ∧
    (⟨18446744073709551615, 2⟩ : ErasureConfig).totalShards .release = .ok 1 ∧
    ErasureConfig.new .debug 18446744073709551615 2 = .error (.panic .addOverflow) := by
  decide +kernel

end TesserasDht.Configurations
