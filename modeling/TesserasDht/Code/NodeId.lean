import TesserasDht.Code.Basic
import TesserasDht.Lib.Bytes

/-! # Node ids and their distance -/

namespace TesserasDht

@[ext]
structure NodeId where
  bytes : Bytes
  len : bytes.length = 32
deriving Repr

instance : DecidableEq NodeId := fun _ _ => decidable_of_iff _ NodeId.ext_iff.symm

def NodeId.fromBytes (b : Bytes32) : NodeId := ⟨b.bytes, b.len⟩

def NodeId.asBytes (a : NodeId) : Bytes32 := ⟨a.bytes, a.len⟩

@[ext]
structure Distance where
  bytes : Bytes
  len : bytes.length = 32
deriving Repr

instance : DecidableEq Distance := fun _ _ => decidable_of_iff _ Distance.ext_iff.symm

def NodeId.distance (a b : NodeId) : Distance :=
  ⟨Lib.Bytes.xor a.bytes b.bytes, by simp [Lib.Bytes.xor_length, a.len, b.len]⟩

/-- `u8::leading_zeros`. -/
def leadingZeros8 (b : UInt8) : Nat := if b = 0 then 8 else 7 - b.toNat.log2

/-- The loop of `Distance::leading_zeros`, from byte `i` on. -/
def Distance.leadingZerosFrom (i : Nat) : Bytes → Nat
  | [] => 256
  | b :: bs => if b ≠ 0 then i * 8 + leadingZeros8 b else leadingZerosFrom (i + 1) bs

def Distance.leadingZeros (d : Distance) : Nat := Distance.leadingZerosFrom 0 d.bytes

def Distance.cmp (d e : Distance) : Ordering := Lib.Bytes.cmp d.bytes e.bytes

def NodeId.commonPrefixLength (a b : NodeId) : Nat := (a.distance b).leadingZeros

/-! ## The order of distances -/

/-- The distance as a 256-bit integer. -/
def Distance.value (d : Distance) : Nat := Lib.Bytes.value d.bytes

theorem Distance.cmp_eq (d e : Distance) : d.cmp e = compare d.value e.value :=
  Lib.Bytes.cmp_eq_compare _ _ (by rw [d.len, e.len])

theorem NodeId.distance_inj (t a b : NodeId) (h : (t.distance a).value = (t.distance b).value) :
    a = b := by
  have hx := Lib.Bytes.value_inj _ _ (by rw [(t.distance a).len, (t.distance b).len]) h
  have hb := Lib.Bytes.xor_left_cancel t.bytes a.bytes b.bytes (by rw [a.len, t.len])
    (by rw [b.len, t.len]) hx
  cases a; cases b; cases hb; rfl

/-! ## Common prefixes -/

theorem leadingZeros8_lt (b : UInt8) (h : b ≠ 0) : leadingZeros8 b < 8 := by
  rw [leadingZeros8, if_neg h]; omega

theorem Distance.leadingZerosFrom_lt (i : Nat) (l : Bytes) (h : ∃ b ∈ l, b ≠ 0) :
    leadingZerosFrom i l < 8 * (i + l.length) := by
  induction l generalizing i with
  | nil => simp at h
  | cons b bs ih =>
    rw [leadingZerosFrom]
    split
    next hb => have := leadingZeros8_lt b hb; simp; omega
    next hb =>
      obtain ⟨c, hc, hne⟩ := h
      rcases List.mem_cons.mp hc with rfl | hc
      · exact absurd hne hb
      · have := ih (i + 1) ⟨c, hc, hne⟩
        simp; omega

theorem NodeId.commonPrefixLength_lt (a b : NodeId) (h : a ≠ b) : a.commonPrefixLength b < 256 := by
  have hne : a.bytes ≠ b.bytes := fun e => h (by cases a; cases b; cases e; rfl)
  have hx := Lib.Bytes.xor_ne_zero a.bytes b.bytes (by rw [a.len, b.len]) hne
  have := Distance.leadingZerosFrom_lt 0 _ hx
  rw [Lib.Bytes.xor_length, a.len, b.len] at this
  exact this

end TesserasDht
