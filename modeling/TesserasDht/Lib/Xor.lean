import Mathlib
import TesserasDht.Lib.Bytes

/-! # The exclusive or as a distance -/

namespace Lib.Xor

open Lib.Bytes

/-! ## Numbers -/

theorem xor_mem_top {m x y : Nat} (hx : x < 2 ^ m) (hy : 2 ^ m ≤ y) (hy' : y < 2 ^ (m + 1)) :
    2 ^ m ≤ x ^^^ y ∧ x ^^^ y < 2 ^ (m + 1) := by
  refine ⟨?_, Nat.xor_lt_two_pow (lt_trans hx (Nat.pow_lt_pow_right (by decide) (Nat.lt_succ_self m))) hy'⟩
  apply Nat.ge_two_pow_of_testBit
  rw [Nat.testBit_xor, Nat.testBit_lt_two_pow hx, Nat.testBit_of_two_pow_le_and_two_pow_add_one_gt hy hy']
  rfl

theorem xor_lt_top {m x y : Nat} (hx : 2 ^ m ≤ x) (hx' : x < 2 ^ (m + 1)) (hy : 2 ^ m ≤ y)
    (hy' : y < 2 ^ (m + 1)) : x ^^^ y < 2 ^ m := by
  refine Nat.lt_pow_two_of_testBit _ fun i hi => ?_
  rw [Nat.testBit_xor]
  rcases Nat.eq_or_lt_of_le hi with rfl | hi
  · rw [Nat.testBit_of_two_pow_le_and_two_pow_add_one_gt hx hx', Nat.testBit_of_two_pow_le_and_two_pow_add_one_gt hy hy']
    rfl
  · have hpow : 2 ^ (m + 1) ≤ 2 ^ i := Nat.pow_le_pow_right (by decide) hi
    rw [Nat.testBit_lt_two_pow (lt_of_lt_of_le hx' hpow), Nat.testBit_lt_two_pow (lt_of_lt_of_le hy' hpow)]
    rfl

/-- The top bit of the other number decides whether a number gets smaller. -/
theorem xor_lt_iff {m x y : Nat} (hy : 2 ^ m ≤ y) (hy' : y < 2 ^ (m + 1)) : x ^^^ y < x ↔ x.testBit m = true := by
  have htop := Nat.testBit_of_two_pow_le_and_two_pow_add_one_gt hy hy'
  have habove : ∀ i, m < i → (x ^^^ y).testBit i = x.testBit i := by
    intro i hi
    have hpow : 2 ^ (m + 1) ≤ 2 ^ i := Nat.pow_le_pow_right (by decide) hi
    rw [Nat.testBit_xor, Nat.testBit_lt_two_pow (lt_of_lt_of_le hy' hpow), Bool.xor_false]
  have hflip : (x ^^^ y).testBit m = !x.testBit m := by rw [Nat.testBit_xor, htop, Bool.xor_true]
  cases hbit : x.testBit m with
  | true =>
    rw [hbit] at hflip
    exact iff_of_true (Nat.lt_of_testBit m hflip hbit habove) rfl
  | false =>
    rw [hbit] at hflip
    have hlt := Nat.lt_of_testBit m hbit hflip fun i hi => (habove i hi).symm
    exact iff_of_false (lt_asymm hlt) Bool.false_ne_true

/-! ## Byte strings -/

/-- The top bit of a byte string that does not start with zero. -/
theorem log2_value_cons {b : UInt8} (hb : b ≠ 0) (bs : List UInt8) :
    (value (b :: bs)).log2 = b.toNat.log2 + 8 * bs.length := by
  have hpos : b.toNat ≠ 0 := fun he => hb (UInt8.toNat_inj.mp he)
  have hlow := Nat.log2_self_le hpos
  have hhigh := Nat.lt_log2_self (n := b.toNat)
  have hpow : (256 : Nat) ^ bs.length = 2 ^ (8 * bs.length) := by
    rw [pow_mul]
    norm_num
  have hbs := value_lt bs
  rw [hpow] at hbs
  have hge : 2 ^ b.toNat.log2 * 2 ^ (8 * bs.length) ≤ value (b :: bs) := by
    rw [value, hpow]
    exact le_trans (Nat.mul_le_mul_right _ hlow) (Nat.le_add_right _ _)
  have hlt : value (b :: bs) < 2 ^ (b.toNat.log2 + 1) * 2 ^ (8 * bs.length) := by
    rw [value, hpow]
    calc b.toNat * 2 ^ (8 * bs.length) + value bs
        < b.toNat * 2 ^ (8 * bs.length) + 2 ^ (8 * bs.length) := by omega
      _ = (b.toNat + 1) * 2 ^ (8 * bs.length) := by ring
      _ ≤ 2 ^ (b.toNat.log2 + 1) * 2 ^ (8 * bs.length) := Nat.mul_le_mul_right _ hhigh
  rw [← pow_add] at hge hlt
  have hne : value (b :: bs) ≠ 0 := by
    have := Nat.two_pow_pos (b.toNat.log2 + 8 * bs.length)
    omega
  rw [Nat.log2_eq_iff hne]
  exact ⟨hge, by rwa [show b.toNat.log2 + 1 + 8 * bs.length = b.toNat.log2 + 8 * bs.length + 1 by omega] at hlt⟩

theorem value_zeros {l : List UInt8} (h : ∀ b ∈ l, b = 0) : value l = 0 := by
  induction l with
  | nil => rfl
  | cons b bs ih =>
    obtain ⟨rfl, hbs⟩ := List.forall_mem_cons.mp h
    rw [value, ih hbs]
    simp

theorem value_ne_zero {l : List UInt8} (h : ∃ b ∈ l, b ≠ 0) : value l ≠ 0 := by
  induction l with
  | nil =>
    obtain ⟨b, hb, -⟩ := h
    cases hb
  | cons b bs ih =>
    rw [value]
    by_cases hb : b = 0
    · obtain ⟨c, hc, hne⟩ := h
      have hrest := ih ⟨c, (List.mem_cons.mp hc).resolve_left fun he => hne (he.trans hb), hne⟩
      omega
    · have hpos : 0 < b.toNat := Nat.pos_of_ne_zero fun he => hb (UInt8.toNat_inj.mp he)
      have := Nat.mul_pos hpos (Nat.pow_pos (n := bs.length) (by decide : 0 < 256))
      omega

theorem xor_comm (a b : List UInt8) : xor a b = xor b a :=
  List.zipWith_comm_of_comm fun x y => UInt8.xor_comm x y

theorem value_xor (a b : List UInt8) (h : a.length = b.length) : value (xor a b) = value a ^^^ value b := by
  induction a generalizing b with
  | nil =>
    obtain rfl := List.length_eq_zero_iff.mp h.symm
    rfl
  | cons x xs ih =>
    cases b with
    | nil => simp at h
    | cons y ys =>
      have hlen : xs.length = ys.length := by simpa using h
      have hpow : (256 : Nat) ^ xs.length = 2 ^ (8 * xs.length) := by
        rw [pow_mul]
        norm_num
      have hxs := value_lt xs
      have hys := value_lt ys
      rw [← hlen] at hys
      rw [hpow] at hxs hys
      have hstep : xor (x :: xs) (y :: ys) = (x ^^^ y) :: xor xs ys := rfl
      rw [hstep, value, value, value, ih ys hlen, xor_length, ← hlen, Nat.min_self, hpow, UInt8.toNat_xor]
      refine Nat.eq_of_testBit_eq fun i => ?_
      rw [Nat.mul_comm, Nat.mul_comm x.toNat, Nat.mul_comm y.toNat,
        Nat.testBit_two_pow_mul_add _ (Nat.xor_lt_two_pow hxs hys),
        Nat.testBit_xor (2 ^ (8 * xs.length) * x.toNat + value xs),
        Nat.testBit_two_pow_mul_add _ hxs, Nat.testBit_two_pow_mul_add _ hys]
      split
      · exact Nat.testBit_xor ..
      · exact Nat.testBit_xor ..

theorem xor_xor_cancel (a b c : List UInt8) (hb : b.length = a.length) (hc : c.length = a.length) :
    xor (xor a b) (xor a c) = xor b c := by
  induction a generalizing b c with
  | nil =>
    obtain rfl := List.length_eq_zero_iff.mp hb
    rfl
  | cons x xs ih =>
    cases b with
    | nil => simp at hb
    | cons y ys =>
      cases c with
      | nil => simp at hc
      | cons z zs =>
        have hxor : (x ^^^ y) ^^^ (x ^^^ z) = y ^^^ z := by
          rw [UInt8.xor_comm x y, UInt8.xor_assoc, ← UInt8.xor_assoc x x z, UInt8.xor_self, UInt8.zero_xor]
        have hstep : xor (xor (x :: xs) (y :: ys)) (xor (x :: xs) (z :: zs)) =
            ((x ^^^ y) ^^^ (x ^^^ z)) :: xor (xor xs ys) (xor xs zs) := rfl
        rw [hstep, hxor, ih ys zs (by simpa using hb) (by simpa using hc)]
        rfl

end Lib.Xor
