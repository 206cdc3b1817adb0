import TesserasDht.Code.Message
import TesserasDht.Lib.Xor
import TesserasDht.Routing

/-!
# Distances

Both counters of leading zeros count down to the top bit of a number, so the buckets and the proof of
work compare that number with powers of two.
-/

open Lib Lib.Bytes

namespace TesserasDht.Distances

/-! ## Leading zeros -/

theorem leadingZeroBitsFrom_log2 (i : Nat) (l : Bytes) (h : ∃ b ∈ l, b ≠ 0) :
    leadingZeroBitsFrom i l + (value l).log2 + 1 = 8 * (i + l.length) := by
  induction l generalizing i with
  | nil =>
    obtain ⟨b, hb, -⟩ := h
    cases hb
  | cons b bs ih =>
    rw [List.length_cons]
    unfold leadingZeroBitsFrom
    split
    next hb =>
      have hpos : b.toNat ≠ 0 := fun he => hb (UInt8.toNat_inj.mp he)
      have hlog : b.toNat.log2 < 8 := (Nat.log2_lt hpos).mpr (by have := b.toNat_lt; omega)
      rw [Xor.log2_value_cons hb, leadingZeros8, if_neg hb]
      omega
    next hb =>
      obtain rfl : b = 0 := not_not.mp hb
      obtain ⟨c, hc, hne⟩ := h
      have hrest := ih (i + 1) ⟨c, (List.mem_cons.mp hc).resolve_left hne, hne⟩
      have hvalue : value (0 :: bs) = value bs := by simp [value]
      rw [hvalue]
      omega

theorem leadingZeroBitsFrom_zeros (i : Nat) (l : Bytes) (h : ∀ b ∈ l, b = 0) :
    leadingZeroBitsFrom i l = 8 * (i + l.length) := by
  induction l generalizing i with
  | nil =>
    rw [leadingZeroBitsFrom, List.length_nil]
    omega
  | cons b bs ih =>
    obtain ⟨hb, hbs⟩ := List.forall_mem_cons.mp h
    rw [leadingZeroBitsFrom, if_neg (not_not.mpr hb), ih _ hbs, List.length_cons]
    omega

theorem le_leadingZeroBits_iff (data : Bytes) {d : Nat} (hd : d ≤ 8 * data.length) :
    d ≤ leadingZeroBits data ↔ value data < 2 ^ (8 * data.length - d) := by
  by_cases h : ∃ b ∈ data, b ≠ 0
  · have hlog := leadingZeroBitsFrom_log2 0 data h
    rw [← Nat.log2_lt (Xor.value_ne_zero h), leadingZeroBits]
    omega
  · have hzeros : ∀ b ∈ data, b = 0 := fun b hb => by_contra fun hne => h ⟨b, hb, hne⟩
    rw [leadingZeroBits, leadingZeroBitsFrom_zeros 0 data hzeros, Xor.value_zeros hzeros]
    exact ⟨fun _ => Nat.two_pow_pos _, fun _ => by omega⟩

theorem leadingZerosFrom_eq (i : Nat) (l : Bytes) (hlen : i + l.length = 32) :
    Distance.leadingZerosFrom i l = leadingZeroBitsFrom i l := by
  induction l generalizing i with
  | nil =>
    rw [List.length_nil] at hlen
    rw [Distance.leadingZerosFrom, leadingZeroBitsFrom]
    omega
  | cons b bs ih =>
    rw [List.length_cons] at hlen
    unfold Distance.leadingZerosFrom leadingZeroBitsFrom
    rw [ih (i + 1) (by omega)]

theorem leadingZeros_eq (d : Distance) : d.leadingZeros = leadingZeroBits d.bytes :=
  leadingZerosFrom_eq 0 d.bytes (by rw [Nat.zero_add, d.len])

/-! ## The exclusive or -/

theorem distance_comm (a b : NodeId) : a.distance b = b.distance a :=
  Distance.ext (Xor.xor_comm a.bytes b.bytes)

theorem distance_triangle (a b c : NodeId) :
    (a.distance c).bytes = Bytes.xor (a.distance b).bytes (b.distance c).bytes := by
  rw [distance_comm a b]
  exact (Xor.xor_xor_cancel b.bytes a.bytes c.bytes (by rw [a.len, b.len]) (by rw [c.len, b.len])).symm

theorem distance_xor (l a b : NodeId) :
    (a.distance b).value = (l.distance a).value ^^^ (l.distance b).value := by
  rw [Distance.value, distance_triangle a l b,
    Xor.value_xor _ _ (by rw [(a.distance l).len, (l.distance b).len]), distance_comm a l]
  rfl

/-! ## Common prefixes -/

section

variable {a b c : NodeId}

theorem le_commonPrefixLength_iff {d : Nat} (hd : d ≤ 256) :
    d ≤ a.commonPrefixLength b ↔ (a.distance b).value < 2 ^ (256 - d) := by
  have hlen : 8 * (a.distance b).bytes.length = 256 := by rw [(a.distance b).len]
  rw [NodeId.commonPrefixLength, leadingZeros_eq, le_leadingZeroBits_iff _ (by omega), hlen]
  rfl

theorem commonPrefixLength_le : a.commonPrefixLength b ≤ 256 := by
  by_cases h : a = b
  · rw [h, Routing.commonPrefixLength_self]
  · exact le_of_lt (NodeId.commonPrefixLength_lt a b h)

theorem commonPrefixLength_eq_iff {n : Nat} (hn : n < 256) :
    a.commonPrefixLength b = n ↔
      2 ^ (255 - n) ≤ (a.distance b).value ∧ (a.distance b).value < 2 ^ (256 - n) := by
  have hle := le_commonPrefixLength_iff (a := a) (b := b) (le_of_lt hn)
  have hlt := le_commonPrefixLength_iff (a := a) (b := b) (d := n + 1) (by omega)
  rw [show 256 - (n + 1) = 255 - n by omega] at hlt
  rw [← hle, ← Nat.not_lt, ← hlt]
  omega

theorem distance_range (h : a ≠ b) :
    a.commonPrefixLength b < 256 ∧ 2 ^ (255 - a.commonPrefixLength b) ≤ (a.distance b).value ∧
      (a.distance b).value < 2 ^ (256 - a.commonPrefixLength b) :=
  have hlt := NodeId.commonPrefixLength_lt a b h
  ⟨hlt, (commonPrefixLength_eq_iff hlt).mp rfl⟩

theorem commonPrefixLength_comm (a b : NodeId) : a.commonPrefixLength b = b.commonPrefixLength a := by
  rw [NodeId.commonPrefixLength, distance_comm]
  rfl

theorem min_le_commonPrefixLength (a b c : NodeId) :
    min (a.commonPrefixLength b) (b.commonPrefixLength c) ≤ a.commonPrefixLength c := by
  have hd : min (a.commonPrefixLength b) (b.commonPrefixLength c) ≤ 256 :=
    le_trans (min_le_left _ _) commonPrefixLength_le
  have hab := (le_commonPrefixLength_iff hd).mp (min_le_left (a.commonPrefixLength b) (b.commonPrefixLength c))
  have hbc := (le_commonPrefixLength_iff hd).mp (min_le_right (a.commonPrefixLength b) (b.commonPrefixLength c))
  rw [le_commonPrefixLength_iff hd, distance_xor b a c, distance_comm b a]
  exact Nat.xor_lt_two_pow hab hbc

/-- Of three prefixes the two shortest have the same length. -/
theorem commonPrefixLength_of_ne (h : a.commonPrefixLength b ≠ b.commonPrefixLength c) :
    a.commonPrefixLength c = min (a.commonPrefixLength b) (b.commonPrefixLength c) := by
  have hac := min_le_commonPrefixLength a b c
  have hab := min_le_commonPrefixLength a c b
  have hbc := min_le_commonPrefixLength b a c
  rw [commonPrefixLength_comm c b] at hab
  rw [commonPrefixLength_comm b a] at hbc
  omega

end

/-! ## Proof of work -/

theorem verifyPowHash_iff (sha256 : Bytes → Hash) (publicKey : Bytes32) (nonce : UInt64) (difficulty : UInt8) :
    verifyPowHash sha256 publicKey nonce difficulty = true ↔
      value (sha256 (publicKey.bytes ++ (Formats.bigEndian 8 nonce.toNat).reverse)).bytes <
        2 ^ (256 - difficulty.toNat) := by
  have hlen : 8 * (sha256 (publicKey.bytes ++ (Formats.bigEndian 8 nonce.toNat).reverse)).bytes.length = 256 := by
    rw [Bytes32.len]
  have hd := difficulty.toNat_lt
  rw [verifyPowHash, decide_eq_true_eq, le_leadingZeroBits_iff _ (by omega), hlen]

/-! ## The laws -/

/-- The order of distances is that of their numbers, distances add up without carry, a common prefix of
`n` bits is a distance between two powers of two, the shorter prefix wins, and the two counters of
leading zeros agree. -/
theorem metric_laws (a b c : NodeId) (d e : Distance) (data : Bytes) :
    d.cmp e = compare d.value e.value ∧
    (a.distance c).bytes = Bytes.xor (a.distance b).bytes (b.distance c).bytes ∧
    (∀ n < 256, a.commonPrefixLength b = n ↔
      2 ^ (255 - n) ≤ (a.distance b).value ∧ (a.distance b).value < 2 ^ (256 - n)) ∧
    min (a.commonPrefixLength b) (b.commonPrefixLength c) ≤ a.commonPrefixLength c ∧
    (a.commonPrefixLength b ≠ b.commonPrefixLength c →
      a.commonPrefixLength c = min (a.commonPrefixLength b) (b.commonPrefixLength c)) ∧
    (∀ n ≤ 8 * data.length,
      n ≤ leadingZeroBits data ↔ value data < 2 ^ (8 * data.length - n)) ∧
    leadingZeroBits d.bytes = d.leadingZeros :=
  ⟨d.cmp_eq e, distance_triangle a b c, fun _ hn => commonPrefixLength_eq_iff hn,
    min_le_commonPrefixLength a b c, commonPrefixLength_of_ne, fun _ hn => le_leadingZeroBits_iff data hn,
    (leadingZeros_eq d).symm⟩

end TesserasDht.Distances
