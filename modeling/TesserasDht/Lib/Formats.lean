import Mathlib

/-! # Bytes and texts of two formats

MessagePack for unsigned integers, strings, arrays and maps, each in its shortest form, and base64
with the URL-safe alphabet and without padding.
-/

namespace Lib.Formats

/-! ## MessagePack -/

/-- The `n` low bytes of `x`, the highest first. -/
def bigEndian (n x : Nat) : List UInt8 :=
  (List.range n).map fun i => UInt8.ofNat (x >>> (8 * (n - 1 - i)))

/-- The number that big-endian bytes stand for. -/
def ofBigEndian (bytes : List UInt8) : Nat := bytes.foldl (fun acc b => acc * 256 + b.toNat) 0

@[simp] theorem length_bigEndian (n x : Nat) : (bigEndian n x).length = n := by simp [bigEndian]

theorem bigEndian_succ (n x : Nat) :
    bigEndian (n + 1) x = UInt8.ofNat (x / 256 ^ n) :: bigEndian n x := by
  have hpow : x >>> (8 * n) = x / 256 ^ n := by
    rw [Nat.shiftRight_eq_div_pow, pow_mul]
    rfl
  rw [bigEndian, List.range_succ_eq_map, List.map_cons, List.map_map, Nat.add_sub_cancel, Nat.sub_zero,
    hpow, bigEndian]
  congr 1
  apply List.map_congr_left
  intro i _
  simp only [Function.comp_apply, Nat.succ_eq_add_one]
  congr 3
  omega

theorem foldl_bigEndian (n x acc : Nat) :
    (bigEndian n x).foldl (fun acc b => acc * 256 + b.toNat) acc = acc * 256 ^ n + x % 256 ^ n := by
  induction n generalizing acc with
  | zero => simp [bigEndian, Nat.mod_one]
  | succ n ih =>
    have hsplit : x % 256 ^ (n + 1) = x / 256 ^ n % 256 * 256 ^ n + x % 256 ^ n := by
      rw [pow_succ, Nat.mod_mul, Nat.add_comm, Nat.mul_comm]
    rw [bigEndian_succ, List.foldl_cons, ih, hsplit, UInt8.toNat_ofNat', pow_succ]
    change (acc * 256 + x / 256 ^ n % 256) * 256 ^ n + x % 256 ^ n = _
    ring

theorem ofBigEndian_bigEndian {n x : Nat} (h : x < 256 ^ n) : ofBigEndian (bigEndian n x) = x := by
  rw [ofBigEndian, foldl_bigEndian, Nat.zero_mul, Nat.zero_add, Nat.mod_eq_of_lt h]

theorem bigEndian_inj {n x y : Nat} (hx : x < 256 ^ n) (hy : y < 256 ^ n)
    (h : bigEndian n x = bigEndian n y) : x = y := by
  rw [← ofBigEndian_bigEndian hx, h, ofBigEndian_bigEndian hy]

def uint (x : Nat) : List UInt8 :=
  if x < 2 ^ 7 then [UInt8.ofNat x]
  else if x < 2 ^ 8 then 0xcc :: bigEndian 1 x
  else if x < 2 ^ 16 then 0xcd :: bigEndian 2 x
  else if x < 2 ^ 32 then 0xce :: bigEndian 4 x
  else 0xcf :: bigEndian 8 x

/-- The head of an array or a map of `n` entries. -/
def head (short long16 long32 : UInt8) (n : Nat) : List UInt8 :=
  if n < 2 ^ 4 then [short + UInt8.ofNat n]
  else if n < 2 ^ 16 then long16 :: bigEndian 2 n
  else long32 :: bigEndian 4 n

/-- An array of values that are encoded already. -/
def array (xs : List (List UInt8)) : List UInt8 := head 0x90 0xdc 0xdd xs.length ++ xs.flatten

/-- A string. -/
def str (s : String) : List UInt8 :=
  let bytes := s.toUTF8.data.toList
  (if bytes.length < 2 ^ 5 then [0xa0 + UInt8.ofNat bytes.length]
    else if bytes.length < 2 ^ 8 then 0xd9 :: bigEndian 1 bytes.length
    else if bytes.length < 2 ^ 16 then 0xda :: bigEndian 2 bytes.length
    else 0xdb :: bigEndian 4 bytes.length) ++ bytes

def nil : List UInt8 := [0xc0]

def bool (x : Bool) : List UInt8 := [if x then 0xc3 else 0xc2]

/-- A map from one name to a value that is encoded already. -/
def single (name : String) (x : List UInt8) : List UInt8 := 0x81 :: str name ++ x

/-- A map from ASCII names of one letter to values that are encoded already. -/
def map (xs : List (Char × List UInt8)) : List UInt8 :=
  head 0x80 0xde 0xdf xs.length ++ xs.flatMap fun x => 0xa1 :: UInt8.ofNat x.1.toNat :: x.2

/-! ### Lengths -/

def uintSize (x : Nat) : Nat :=
  if x < 2 ^ 7 then 1
  else if x < 2 ^ 8 then 2
  else if x < 2 ^ 16 then 3
  else if x < 2 ^ 32 then 5
  else 9

def headSize (n : Nat) : Nat := if n < 2 ^ 4 then 1 else if n < 2 ^ 16 then 3 else 5

theorem length_uint (x : Nat) : (uint x).length = uintSize x := by
  unfold uint uintSize
  split_ifs <;> simp only [List.length_cons, List.length_nil, length_bigEndian]

theorem length_array (xs : List (List UInt8)) :
    (array xs).length = headSize xs.length + (xs.map List.length).sum := by
  rw [array, List.length_append, List.length_flatten]
  congr 1
  unfold head headSize
  split_ifs <;> simp only [List.length_cons, List.length_nil, length_bigEndian]

theorem uintSize_le (x : Nat) : uintSize x ≤ 9 := by
  unfold uintSize
  split_ifs <;> omega

theorem length_array_le (k : Nat) (xs : List (List UInt8)) (h : ∀ x ∈ xs, x.length ≤ k) :
    (array xs).length ≤ 5 + xs.length * k := by
  have hsum := List.sum_le_card_nsmul (xs.map List.length) k (by
    intro n hn
    obtain ⟨x, hx, rfl⟩ := List.mem_map.mp hn
    exact h x hx)
  rw [List.length_map, smul_eq_mul] at hsum
  have hhead : headSize xs.length ≤ 5 := by
    unfold headSize
    split_ifs <;> omega
  rw [length_array]
  omega

theorem length_bool (x : Bool) : (bool x).length = 1 := rfl

theorem length_single (name : String) (x : List UInt8) :
    (single name x).length = 1 + (str name).length + x.length := by
  rw [single, List.cons_append, List.length_cons, List.length_append]
  omega

theorem uintSize_byte (b : UInt8) : uintSize b.toNat = 1 + if 128 ≤ b then 1 else 0 := by
  have hlt := b.toNat_lt
  have hle : 128 ≤ b ↔ 128 ≤ b.toNat := UInt8.le_iff_toNat_le
  unfold uintSize
  simp only [hle]
  split_ifs <;> omega

/-! ## Base64 -/

def digit (n : Nat) : Char :=
  if n < 26 then .ofNat (n + 65)
  else if n < 52 then .ofNat (n + 71)
  else if n < 62 then .ofNat (n - 4)
  else if n = 62 then '-'
  else '_'

def base64 : List UInt8 → List Char
  | a :: b :: c :: rest =>
    let n := a.toNat * 2 ^ 16 + b.toNat * 2 ^ 8 + c.toNat
    digit (n / 2 ^ 18) :: digit (n / 2 ^ 12 % 64) :: digit (n / 2 ^ 6 % 64) :: digit (n % 64) ::
      base64 rest
  | [a, b] =>
    let n := a.toNat * 2 ^ 10 + b.toNat * 2 ^ 2
    [digit (n / 2 ^ 12), digit (n / 2 ^ 6 % 64), digit (n % 64)]
  | [a] => [digit (a.toNat / 4), digit (a.toNat * 16 % 64)]
  | [] => []

def undigit (c : Char) : Option Nat :=
  let n := c.toNat
  if 65 ≤ n ∧ n ≤ 90 then some (n - 65)
  else if 97 ≤ n ∧ n ≤ 122 then some (n - 71)
  else if 48 ≤ n ∧ n ≤ 57 then some (n + 4)
  else if c = '-' then some 62
  else if c = '_' then some 63
  else none

/-- The bits that a text has too many are zero. -/
def unbase64 : List Char → Option (List UInt8)
  | a :: b :: c :: d :: rest => do
    let n := ((← undigit a) * 64 + (← undigit b)) * 64 ^ 2 + (← undigit c) * 64 + (← undigit d)
    let bytes ← unbase64 rest
    return UInt8.ofNat (n / 2 ^ 16) :: UInt8.ofNat (n / 2 ^ 8) :: UInt8.ofNat n :: bytes
  | [a, b, c] => do
    let n := ((← undigit a) * 64 + (← undigit b)) * 64 + (← undigit c)
    if n % 4 = 0 then return [UInt8.ofNat (n / 2 ^ 10), UInt8.ofNat (n / 2 ^ 2)] else none
  | [a, b] => do
    let n := (← undigit a) * 64 + (← undigit b)
    if n % 16 = 0 then return [UInt8.ofNat (n / 2 ^ 4)] else none
  | [_] => none
  | [] => some []

theorem undigit_digit {n : Nat} (h : n < 64) : undigit (digit n) = some n := by
  have hall : ∀ n < 64, undigit (digit n) = some n := by decide
  exact hall n h

theorem ofNat_eq {n : Nat} {a : UInt8} (h : n % 256 = a.toNat) : UInt8.ofNat n = a := by
  apply UInt8.toNat_inj.mp
  rw [UInt8.toNat_ofNat']
  exact h

theorem unbase64_base64 (bytes : List UInt8) : unbase64 (base64 bytes) = some bytes := by
  fun_induction base64 bytes with
  | case1 a b c rest n ih =>
    have ha := a.toNat_lt
    have hb := b.toNat_lt
    have hc := c.toNat_lt
    have hn : n = a.toNat * 2 ^ 16 + b.toNat * 2 ^ 8 + c.toNat := rfl
    clear_value n
    have hjoin : (n / 2 ^ 18 * 64 + n / 2 ^ 12 % 64) * 64 ^ 2 + n / 2 ^ 6 % 64 * 64 + n % 64 = n := by
      omega
    simp only [unbase64, undigit_digit (by omega : n / 2 ^ 18 < 64),
      undigit_digit (Nat.mod_lt _ (by omega : 0 < 64)), ih, Option.bind_eq_bind, Option.bind_some,
      hjoin, Option.pure_def]
    rw [ofNat_eq (by omega : n / 2 ^ 16 % 256 = a.toNat), ofNat_eq (by omega : n / 2 ^ 8 % 256 = b.toNat),
      ofNat_eq (by omega : n % 256 = c.toNat)]
  | case2 a b n =>
    have ha := a.toNat_lt
    have hb := b.toNat_lt
    have hn : n = a.toNat * 2 ^ 10 + b.toNat * 2 ^ 2 := rfl
    clear_value n
    have hjoin : (n / 2 ^ 12 * 64 + n / 2 ^ 6 % 64) * 64 + n % 64 = n := by omega
    simp only [unbase64, undigit_digit (by omega : n / 2 ^ 12 < 64),
      undigit_digit (Nat.mod_lt _ (by omega : 0 < 64)), Option.bind_eq_bind, Option.bind_some, hjoin,
      Option.pure_def]
    rw [if_pos (by omega), ofNat_eq (by omega : n / 2 ^ 10 % 256 = a.toNat),
      ofNat_eq (by omega : n / 2 ^ 2 % 256 = b.toNat)]
  | case3 a =>
    have ha := a.toNat_lt
    have hjoin : a.toNat / 4 * 64 + a.toNat * 16 % 64 = a.toNat * 16 := by omega
    simp only [unbase64, undigit_digit (by omega : a.toNat / 4 < 64),
      undigit_digit (Nat.mod_lt _ (by omega : 0 < 64)), Option.bind_eq_bind, Option.bind_some, hjoin,
      Option.pure_def]
    rw [if_pos (by omega), ofNat_eq (by omega : a.toNat * 16 / 2 ^ 4 % 256 = a.toNat)]
  | case4 => rfl

end Lib.Formats
