import TesserasDht.Distances

/-!
# Ids for a bucket refresh

The id that is looked up to refresh a bucket: the bits of the local id, then one that differs, then random
ones.
-/

open Lib Lib.Bytes

namespace TesserasDht.RefreshIds

open RoutingTable (bitMask copyBit copyBits flipBit length_copyBits)

/-! ## Bytes -/

section

variable {x y m : UInt8} {k : Nat}

theorem testBit_bitMask (i : Nat) (hk : k < 8) : (bitMask i).toNat.testBit k = decide (k = 7 - i % 8) := by
  have h : ∀ j < 8, ∀ k < 8, ((0x80 : UInt8) >>> UInt8.ofNat j).toNat.testBit k = decide (k = 7 - j) := by
    decide
  exact h _ (Nat.mod_lt _ (by decide)) k hk

theorem testBit_copy (hk : k < 8) : ((x &&& ~~~m) ||| (y &&& m)).toNat.testBit k =
    if m.toNat.testBit k then y.toNat.testBit k else x.toNat.testBit k := by
  change ((x &&& ~~~m) ||| (y &&& m)).toBitVec.getLsbD k =
    if m.toBitVec.getLsbD k then y.toBitVec.getLsbD k else x.toBitVec.getLsbD k
  rw [UInt8.toBitVec_or, UInt8.toBitVec_and, UInt8.toBitVec_and, UInt8.toBitVec_not, BitVec.getLsbD_or,
    BitVec.getLsbD_and, BitVec.getLsbD_and, BitVec.getLsbD_not, decide_eq_true hk, Bool.true_and]
  cases m.toBitVec.getLsbD k with
  | false => simp
  | true => simp

theorem testBit_and_eq (h : x &&& m = y &&& m) (hm : m.toNat.testBit k = true) :
    x.toNat.testBit k = y.toNat.testBit k := by
  have hbit := congrArg (fun z : UInt8 => z.toNat.testBit k) h
  simpa [UInt8.toNat_and, Nat.testBit_and, hm] using hbit

theorem and_eq_of_testBit (h : ∀ k < 8, m.toNat.testBit k = true → x.toNat.testBit k = y.toNat.testBit k) :
    x &&& m = y &&& m := by
  apply UInt8.toNat_inj.mp
  refine Nat.eq_of_testBit_eq fun k => ?_
  rw [UInt8.toNat_and, UInt8.toNat_and, Nat.testBit_and, Nat.testBit_and]
  by_cases hk : k < 8
  · cases hm : m.toNat.testBit k with
    | false => rw [Bool.and_false, Bool.and_false]
    | true => rw [h k hk hm]
  · have hlt : m.toNat < 2 ^ k := lt_of_lt_of_le m.toNat_lt (Nat.pow_le_pow_right (by decide) (by omega))
    rw [Nat.testBit_lt_two_pow hlt, Bool.and_false, Bool.and_false]

end

/-! ## Byte strings -/

section

variable {l localBytes : Bytes} {n : Nat}

theorem bit_modify {j : Nat} (f : UInt8 → UInt8) (hj : j < l.length) (i : Nat) :
    bit (l.modify j f) i = if i / 8 = j then (f (l.getD j 0)).toNat.testBit (7 - i % 8) else bit l i := by
  rw [bit, List.getD_eq_getElem?_getD, List.getElem?_modify]
  split
  next h =>
    subst h
    rw [if_pos rfl, List.getD_eq_getElem?_getD, List.getElem?_eq_getElem hj]
    rfl
  next h =>
    rw [if_neg fun he => h he.symm, bit, List.getD_eq_getElem?_getD]
    cases l[i / 8]? <;> rfl

theorem bit_copyBit (hn : n < 8 * l.length) (i : Nat) :
    bit (copyBit localBytes l n) i = if i = n then bit localBytes i else bit l i := by
  rw [copyBit, bit_modify _ (by omega)]
  split
  next h =>
    rw [testBit_copy (by omega), testBit_bitMask n (by omega), ← h]
    by_cases hi : i = n
    · rw [if_pos hi, if_pos (by rw [hi]; exact decide_eq_true rfl)]
      rfl
    · rw [if_neg hi, if_neg (by simp; omega)]
      rfl
  next h => rw [if_neg fun he => h (by rw [he])]

theorem bit_copyBits (hn : n ≤ 8 * l.length) (i : Nat) :
    bit (copyBits localBytes l n) i = if i < n then bit localBytes i else bit l i := by
  induction n with
  | zero => rfl
  | succ n ih =>
    have hstep : copyBits localBytes l (n + 1) = copyBit localBytes (copyBits localBytes l n) n := by
      rw [copyBits, List.range_succ, List.foldl_append]
      rfl
    rw [hstep, bit_copyBit (by rw [length_copyBits]; omega), ih (by omega)]
    by_cases hi : i = n
    · rw [if_pos hi, if_pos (by omega)]
    · rw [if_neg hi]
      by_cases hlt : i < n
      · rw [if_pos hlt, if_pos (by omega)]
      · rw [if_neg hlt, if_neg (by omega)]

theorem bit_flipBit (hn : n < 8 * l.length) (i : Nat) :
    bit (flipBit localBytes l n) i = if i = n then !bit localBytes n else bit l i := by
  have hmask (k : Nat) (hk : k < 8) := testBit_bitMask n hk
  rw [flipBit, bit_modify _ (by omega)]
  split
  next h =>
    by_cases hi : i = n
    · subst hi
      rw [if_pos rfl]
      split
      next hsame =>
        have hbit := testBit_and_eq hsame ((hmask (7 - i % 8) (by omega)).trans (decide_eq_true rfl))
        rw [UInt8.toNat_xor, Nat.testBit_xor, hbit, hmask _ (by omega), decide_eq_true rfl, Bool.xor_true]
        rfl
      next hdiff =>
        -- The masks keep one bit each, so it is that bit that differs.
        have hne : (l.getD (i / 8) 0).toNat.testBit (7 - i % 8) ≠ bit localBytes i := by
          intro hbit
          refine hdiff (and_eq_of_testBit fun k hk hm => ?_)
          rw [hmask k hk, decide_eq_true_eq] at hm
          rw [hm]
          exact hbit
        exact Bool.eq_not_of_ne hne
    · have hoff : decide (7 - i % 8 = 7 - n % 8) = false := by simp; omega
      rw [if_neg hi]
      split
      · rw [UInt8.toNat_xor, Nat.testBit_xor, hmask _ (by omega), hoff, Bool.xor_false, ← h]
        rfl
      · rw [← h]
        rfl
  next h => rw [if_neg fun he => h (by rw [he])]

end

/-! ## Ids -/

section

variable {a b : NodeId}

theorem testBit_distance {i : Nat} (hi : i < 256) :
    (a.distance b).value.testBit (255 - i) = (bit a.bytes i ^^ bit b.bytes i) := by
  have ha := testBit_value a.bytes (i := i) (by rw [a.len]; exact hi)
  have hb := testBit_value b.bytes (i := i) (by rw [b.len]; exact hi)
  rw [a.len] at ha
  rw [b.len] at hb
  rw [← ha, ← hb, ← Nat.testBit_xor, ← Xor.value_xor _ _ (by rw [a.len, b.len])]
  rfl

theorem commonPrefixLength_of_bits {n : Nat} (hn : n < 256) (hsame : ∀ i < n, bit a.bytes i = bit b.bytes i)
    (hdiff : bit a.bytes n ≠ bit b.bytes n) : a.commonPrefixLength b = n := by
  rw [Distances.commonPrefixLength_eq_iff hn]
  constructor
  · apply Nat.ge_two_pow_of_testBit
    rw [testBit_distance hn]
    exact bne_iff_ne.mpr hdiff
  · refine Nat.lt_pow_two_of_testBit _ fun k hk => ?_
    by_cases hlt : k < 256
    · have hi := testBit_distance (a := a) (b := b) (i := 255 - k) (by omega)
      rw [show 255 - (255 - k) = k by omega, hsame _ (by omega), Bool.xor_self] at hi
      exact hi
    · have hvalue := value_lt (a.distance b).bytes
      have hpow : (256 : Nat) ^ (a.distance b).bytes.length ≤ 2 ^ k := by
        rw [(a.distance b).len, show (256 : Nat) ^ 32 = 2 ^ 256 by decide]
        exact Nat.pow_le_pow_right (by decide) (by omega)
      exact Nat.testBit_lt_two_pow (lt_of_lt_of_le hvalue hpow)

end

theorem bit_randomId (t : RoutingTable) (random : Bytes32) {n : Nat} (hn : n < 256) (i : Nat) :
    bit (t.randomIdForBucket random n).bytes i =
      if i = n then !bit t.localId.bytes n else if i < n then bit t.localId.bytes i else bit random.bytes i := by
  have hlen : n ≤ 8 * random.bytes.length := by rw [random.len]; omega
  have hbytes : (t.randomIdForBucket random n).bytes =
      flipBit t.localId.bytes (copyBits t.localId.bytes random.bytes n) n := by
    simp only [RoutingTable.randomIdForBucket, if_pos hn, Nat.min_eq_left (le_of_lt hn)]
  rw [hbytes, bit_flipBit (by rw [length_copyBits, random.len]; omega), bit_copyBits hlen]

/-- The id falls into the bucket that is refreshed, and behind the bit that decides it is random. -/
theorem random_id_in_bucket (t : RoutingTable) (random : Bytes32) (i : Fin 256) :
    t.localId.commonPrefixLength (t.randomIdForBucket random i) = i ∧
    t.bucketIndex (t.randomIdForBucket random i) = i ∧
    ∀ j, i < j → j < 256 → bit (t.randomIdForBucket random i).bytes j = bit random.bytes j := by
  have hbits := bit_randomId t random i.isLt
  have hlength : t.localId.commonPrefixLength (t.randomIdForBucket random i) = i := by
    refine commonPrefixLength_of_bits i.isLt (fun j hj => ?_) ?_
    · rw [hbits, if_neg (by omega), if_pos hj]
    · rw [hbits, if_pos rfl]
      exact (Bool.not_ne_self _).symm
  refine ⟨hlength, ?_, fun j hij _ => ?_⟩
  · ext
    simp only [RoutingTable.bucketIndex, hlength]
    omega
  · rw [hbits, if_neg (by omega), if_neg (by omega)]

end TesserasDht.RefreshIds
