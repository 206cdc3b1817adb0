import Mathlib.Data.List.Basic
import Mathlib.Tactic.Linarith
import Mathlib.Tactic.Ring

/-! # Byte strings: order, value and exclusive or -/

namespace Lib.Bytes

/-- The big-endian value. -/
def value : List UInt8 → Nat
  | [] => 0
  | b :: bs => b.toNat * 256 ^ bs.length + value bs

/-- Byte by byte, the first difference decides. -/
def cmp : List UInt8 → List UInt8 → Ordering
  | [], [] => .eq
  | [], _ :: _ => .lt
  | _ :: _, [] => .gt
  | a :: as, b :: bs => (compare a.toNat b.toNat).then (cmp as bs)

def xor (a b : List UInt8) : List UInt8 := List.zipWith (· ^^^ ·) a b

/-- Bit `i`, counted from the left. -/
def bit (l : List UInt8) (i : Nat) : Bool := (l.getD (i / 8) 0).toNat.testBit (7 - i % 8)

/-! ## Value -/

theorem value_lt (l : List UInt8) : value l < 256 ^ l.length := by
  induction l with
  | nil => simp [value]
  | cons b bs ih =>
    have hb : b.toNat + 1 ≤ 256 := by have := b.toNat_lt; omega
    calc value (b :: bs) < b.toNat * 256 ^ bs.length + 256 ^ bs.length := by
          simp only [value]; omega
      _ = (b.toNat + 1) * 256 ^ bs.length := by ring
      _ ≤ 256 * 256 ^ bs.length := Nat.mul_le_mul_right _ hb
      _ = 256 ^ (b :: bs).length := by simp [pow_succ]; ring

theorem value_lt_of_head {a b : UInt8} {as bs : List UInt8} (hl : as.length = bs.length)
    (h : a.toNat < b.toNat) : value (a :: as) < value (b :: bs) := by
  have ha := value_lt as
  have : (a.toNat + 1) * 256 ^ bs.length ≤ b.toNat * 256 ^ bs.length := Nat.mul_le_mul_right _ h
  simp only [value, hl] at ha ⊢
  rw [Nat.add_mul] at this
  omega

theorem cmp_eq_compare (a b : List UInt8) (hl : a.length = b.length) :
    cmp a b = compare (value a) (value b) := by
  induction a generalizing b with
  | nil => cases b with
    | nil => rfl
    | cons => simp at hl
  | cons x xs ih => cases b with
    | nil => simp at hl
    | cons y ys =>
      have hl' : xs.length = ys.length := by simpa using hl
      simp only [cmp]
      rcases Nat.lt_trichotomy x.toNat y.toNat with h | h | h
      · rw [Nat.compare_eq_lt.mpr h, Nat.compare_eq_lt.mpr (value_lt_of_head hl' h)]; rfl
      · rw [Nat.compare_eq_eq.mpr h, Ordering.eq_then, ih ys hl', value, value, h, hl']
        simp only [Nat.compare_eq_ite_lt, Nat.add_lt_add_iff_left]
      · rw [Nat.compare_eq_gt.mpr h, Nat.compare_eq_gt.mpr (value_lt_of_head hl'.symm h)]; rfl

theorem cmp_eq_iff (a b : List UInt8) (hl : a.length = b.length) : cmp a b = .eq ↔ a = b := by
  constructor
  · intro h
    induction a generalizing b with
    | nil => cases b with
      | nil => rfl
      | cons => simp at hl
    | cons x xs ih => cases b with
      | nil => simp at hl
      | cons y ys =>
        simp only [cmp, Ordering.then_eq_eq, Nat.compare_eq_eq, UInt8.toNat_inj] at h
        rw [h.1, ih ys (by simpa using hl) h.2]
  · rintro rfl
    rw [cmp_eq_compare _ _ rfl, Nat.compare_eq_eq]

theorem value_inj (a b : List UInt8) (hl : a.length = b.length) (h : value a = value b) : a = b := by
  rw [← cmp_eq_iff a b hl, cmp_eq_compare a b hl, Nat.compare_eq_eq]
  exact h

/-! ## Bits -/

theorem testBit_value (l : List UInt8) {i : Nat} (h : i < 8 * l.length) :
    (value l).testBit (8 * l.length - 1 - i) = bit l i := by
  induction l generalizing i with
  | nil => simp at h
  | cons b bs ih =>
    have hpow : (256 : Nat) ^ bs.length = 2 ^ (8 * bs.length) := by
      rw [pow_mul]
      norm_num
    have hbs := value_lt bs
    rw [hpow] at hbs
    rw [List.length_cons] at h ⊢
    rw [value, hpow, Nat.mul_comm, Nat.testBit_two_pow_mul_add _ hbs]
    by_cases hi : i < 8
    · rw [if_neg (by omega), bit, Nat.div_eq_of_lt hi, Nat.mod_eq_of_lt hi]
      congr 1
      omega
    · have hprev := ih (i := i - 8) (by omega)
      rw [if_pos (by omega), bit, show i / 8 = (i - 8) / 8 + 1 by omega,
        show i % 8 = (i - 8) % 8 by omega, List.getD_cons_succ, ← bit, ← hprev]
      congr 1
      omega

/-! ## Exclusive or -/

theorem xor_length (a b : List UInt8) : (xor a b).length = min a.length b.length := by
  simp [xor]

theorem xor_left_cancel (a b c : List UInt8) (hb : b.length = a.length) (hc : c.length = a.length)
    (h : xor a b = xor a c) : b = c := by
  induction a generalizing b c with
  | nil => rw [List.eq_nil_of_length_eq_zero hb, List.eq_nil_of_length_eq_zero hc]
  | cons x xs ih =>
    match b, c, hb, hc with
    | y :: ys, z :: zs, hb, hc =>
      simp only [xor, List.zipWith_cons_cons, List.cons.injEq] at h
      rw [(UInt8.xor_right_inj x).mp h.1, ih ys zs (by simpa using hb) (by simpa using hc) h.2]

theorem xor_ne_zero (a b : List UInt8) (hl : a.length = b.length) (h : a ≠ b) :
    ∃ x ∈ xor a b, x ≠ 0 := by
  induction a generalizing b with
  | nil => exact absurd (List.eq_nil_of_length_eq_zero hl.symm).symm h
  | cons x xs ih => match b, hl with
    | y :: ys, hl =>
      by_cases hxy : x = y
      · obtain ⟨z, hz, hne⟩ := ih ys (by simpa using hl) (fun e => h (by rw [hxy, e]))
        exact ⟨z, List.mem_cons_of_mem _ hz, hne⟩
      · exact ⟨x ^^^ y, List.mem_cons_self, fun e => hxy (UInt8.xor_eq_zero_iff.mp e)⟩

end Lib.Bytes
