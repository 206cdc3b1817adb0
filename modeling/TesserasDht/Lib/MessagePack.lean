import TesserasDht.Lib.Formats

/-!
# MessagePack values

Nil, truth values, unsigned integers, strings, arrays and maps with string keys, each in its shortest
form. A string is
given by its UTF-8 bytes. The format has no form for a length from `2^32` on: here such a length
follows the byte that the format never uses.
-/

open Lib.Formats

namespace Lib.MessagePack

inductive Value
  | nil
  | bool (b : Bool)
  | uint (n : UInt64)
  | str (bytes : List UInt8)
  | array (xs : List Value)
  | map (xs : List (List UInt8 × Value))

/-! ## The first bytes of a value -/

inductive Head
  | nil
  | bool (b : Bool)
  | uint (n : Nat)
  | str (n : Nat)
  | array (n : Nat)
  | map (n : Nat)

/-- A length that no form of the format holds. -/
def longLength (mark : UInt8) (n : Nat) : List UInt8 := 0xc1 :: mark :: (List.replicate n 0 ++ [1])

def encodeHead : Head → List UInt8
  | .nil => Formats.nil
  | .bool b => Formats.bool b
  | .uint n => Formats.uint n
  | .str n =>
    if n < 2 ^ 5 then [UInt8.ofNat (0xa0 + n)]
    else if n < 2 ^ 8 then 0xd9 :: bigEndian 1 n
    else if n < 2 ^ 16 then 0xda :: bigEndian 2 n
    else if n < 2 ^ 32 then 0xdb :: bigEndian 4 n
    else longLength 0xdb n
  | .array n =>
    if n < 2 ^ 4 then [UInt8.ofNat (0x90 + n)]
    else if n < 2 ^ 16 then 0xdc :: bigEndian 2 n
    else if n < 2 ^ 32 then 0xdd :: bigEndian 4 n
    else longLength 0xdd n
  | .map n =>
    if n < 2 ^ 4 then [UInt8.ofNat (0x80 + n)]
    else if n < 2 ^ 16 then 0xde :: bigEndian 2 n
    else if n < 2 ^ 32 then 0xdf :: bigEndian 4 n
    else longLength 0xdf n

abbrev Reader (α : Type) := List UInt8 → Option (α × List UInt8)

def take (n : Nat) : Reader (List UInt8) := fun bytes =>
  if n ≤ bytes.length then some (bytes.take n, bytes.drop n) else none

/-- A number of `n` bytes. -/
def number (n : Nat) (f : Nat → Head) : Reader Head := fun bytes =>
  (take n bytes).map fun p => (f (ofBigEndian p.1), p.2)

/-- The zeros before the next one. -/
def countZeros : Nat → Reader Nat
  | _, [] => none
  | n, b :: rest => if b = 0 then countZeros (n + 1) rest else some (n, rest)

def decodeLong : Reader Head
  | 0xdb :: rest => (countZeros 0 rest).map fun p => (.str p.1, p.2)
  | 0xdd :: rest => (countZeros 0 rest).map fun p => (.array p.1, p.2)
  | 0xdf :: rest => (countZeros 0 rest).map fun p => (.map p.1, p.2)
  | _ => none

def decodeHead : Reader Head
  | [] => none
  | b :: rest =>
    let n := b.toNat
    if n < 0x80 then some (.uint n, rest)
    else if n < 0x90 then some (.map (n - 0x80), rest)
    else if n < 0xa0 then some (.array (n - 0x90), rest)
    else if n < 0xc0 then some (.str (n - 0xa0), rest)
    else if n = 0xc0 then some (.nil, rest)
    else if n = 0xc1 then decodeLong rest
    else if n = 0xc2 then some (.bool false, rest)
    else if n = 0xc3 then some (.bool true, rest)
    else if n = 0xcc then number 1 .uint rest
    else if n = 0xcd then number 2 .uint rest
    else if n = 0xce then number 4 .uint rest
    else if n = 0xcf then number 8 .uint rest
    else if n = 0xd9 then number 1 .str rest
    else if n = 0xda then number 2 .str rest
    else if n = 0xdb then number 4 .str rest
    else if n = 0xdc then number 2 .array rest
    else if n = 0xdd then number 4 .array rest
    else if n = 0xde then number 2 .map rest
    else if n = 0xdf then number 4 .map rest
    else none

theorem take_append (bytes rest : List UInt8) : take bytes.length (bytes ++ rest) = some (bytes, rest) := by
  simp [take]

theorem number_bigEndian {n x : Nat} (f : Nat → Head) (hx : x < 256 ^ n) (rest : List UInt8) :
    number n f (bigEndian n x ++ rest) = some (f x, rest) := by
  have htake := take_append (bigEndian n x) rest
  rw [length_bigEndian] at htake
  rw [number, htake, Option.map_some, ofBigEndian_bigEndian hx]

theorem countZeros_replicate (m n : Nat) (rest : List UInt8) :
    countZeros m (List.replicate n 0 ++ 1 :: rest) = some (m + n, rest) := by
  induction n generalizing m with
  | zero => rfl
  | succ n ih =>
    rw [List.replicate_succ, List.cons_append, countZeros, if_pos rfl, ih]
    congr 2
    omega

theorem toNat_ofNat_of_lt {x : Nat} (h : x < 256) : (UInt8.ofNat x).toNat = x := by
  rw [UInt8.toNat_ofNat']
  exact Nat.mod_eq_of_lt h

theorem decodeHead_short {n : Nat} (rest : List UInt8) :
    (n < 0x80 → decodeHead (UInt8.ofNat n :: rest) = some (.uint n, rest)) ∧
    (n < 2 ^ 4 → decodeHead (UInt8.ofNat (0x80 + n) :: rest) = some (.map n, rest)) ∧
    (n < 2 ^ 4 → decodeHead (UInt8.ofNat (0x90 + n) :: rest) = some (.array n, rest)) ∧
    (n < 2 ^ 5 → decodeHead (UInt8.ofNat (0xa0 + n) :: rest) = some (.str n, rest)) := by
  refine ⟨fun h => ?_, fun h => ?_, fun h => ?_, fun h => ?_⟩
  · simp only [decodeHead, toNat_ofNat_of_lt (by omega : n < 256), if_pos h]
  · simp only [decodeHead, toNat_ofNat_of_lt (by omega : 0x80 + n < 256)]
    rw [if_neg (by omega), if_pos (by omega), Nat.add_sub_cancel_left]
  · simp only [decodeHead, toNat_ofNat_of_lt (by omega : 0x90 + n < 256)]
    rw [if_neg (by omega), if_neg (by omega), if_pos (by omega), Nat.add_sub_cancel_left]
  · simp only [decodeHead, toNat_ofNat_of_lt (by omega : 0xa0 + n < 256)]
    rw [if_neg (by omega), if_neg (by omega), if_neg (by omega), if_pos (by omega),
      Nat.add_sub_cancel_left]

theorem decodeHead_uint {n : Nat} (hn : n < 2 ^ 64) (rest : List UInt8) :
    decodeHead (encodeHead (.uint n) ++ rest) = some (.uint n, rest) := by
  dsimp only [encodeHead, Formats.uint]
  split_ifs with h7 h8 h16 h32
  · exact (decodeHead_short rest).1 h7
  · exact number_bigEndian .uint (n := 1) (by omega) rest
  · exact number_bigEndian .uint (n := 2) (by omega) rest
  · exact number_bigEndian .uint (n := 4) (by omega) rest
  · exact number_bigEndian .uint (n := 8) (by omega) rest

theorem decodeHead_bool (b : Bool) (rest : List UInt8) :
    decodeHead (encodeHead (.bool b) ++ rest) = some (.bool b, rest) := by
  cases b <;> rfl

theorem decodeLong_append (n : Nat) (rest : List UInt8) :
    decodeHead (longLength 0xdb n ++ rest) = some (.str n, rest) ∧
      decodeHead (longLength 0xdd n ++ rest) = some (.array n, rest) ∧
      decodeHead (longLength 0xdf n ++ rest) = some (.map n, rest) := by
  have hcount : countZeros 0 (List.replicate n 0 ++ [1] ++ rest) = some (n, rest) := by
    rw [List.append_assoc, List.singleton_append, countZeros_replicate, Nat.zero_add]
  refine ⟨?_, ?_, ?_⟩
  · change (countZeros 0 (List.replicate n 0 ++ [1] ++ rest)).map _ = _
    rw [hcount]
    rfl
  · change (countZeros 0 (List.replicate n 0 ++ [1] ++ rest)).map _ = _
    rw [hcount]
    rfl
  · change (countZeros 0 (List.replicate n 0 ++ [1] ++ rest)).map _ = _
    rw [hcount]
    rfl

theorem decodeHead_str (n : Nat) (rest : List UInt8) :
    decodeHead (encodeHead (.str n) ++ rest) = some (.str n, rest) := by
  dsimp only [encodeHead]
  split_ifs with h5 h8 h16 h32
  · exact (decodeHead_short rest).2.2.2 h5
  · exact number_bigEndian .str (n := 1) (by omega) rest
  · exact number_bigEndian .str (n := 2) (by omega) rest
  · exact number_bigEndian .str (n := 4) (by omega) rest
  · exact (decodeLong_append n rest).1

theorem decodeHead_array (n : Nat) (rest : List UInt8) :
    decodeHead (encodeHead (.array n) ++ rest) = some (.array n, rest) := by
  dsimp only [encodeHead]
  split_ifs with h4 h16 h32
  · exact (decodeHead_short rest).2.2.1 h4
  · exact number_bigEndian .array (n := 2) (by omega) rest
  · exact number_bigEndian .array (n := 4) (by omega) rest
  · exact (decodeLong_append n rest).2.1

theorem decodeHead_map (n : Nat) (rest : List UInt8) :
    decodeHead (encodeHead (.map n) ++ rest) = some (.map n, rest) := by
  dsimp only [encodeHead]
  split_ifs with h4 h16 h32
  · exact (decodeHead_short rest).2.1 h4
  · exact number_bigEndian .map (n := 2) (by omega) rest
  · exact number_bigEndian .map (n := 4) (by omega) rest
  · exact (decodeLong_append n rest).2.2

theorem encodeHead_pos (h : Head) : 0 < (encodeHead h).length := by
  cases h with
  | nil => exact Nat.one_pos
  | bool b => exact Nat.one_pos
  | uint n =>
    dsimp only [encodeHead, Formats.uint]
    split_ifs <;> exact Nat.succ_pos _
  | _ =>
    dsimp only [encodeHead, longLength]
    split_ifs <;> exact Nat.succ_pos _

/-! ## Values -/

def encodeStr (bytes : List UInt8) : List UInt8 := encodeHead (.str bytes.length) ++ bytes

mutual

def encode : Value → List UInt8
  | .nil => encodeHead .nil
  | .bool b => encodeHead (.bool b)
  | .uint n => encodeHead (.uint n.toNat)
  | .str bytes => encodeStr bytes
  | .array xs => encodeHead (.array xs.length) ++ encodeAll xs
  | .map xs => encodeHead (.map xs.length) ++ encodeEntries xs
termination_by structural v => v

def encodeAll : List Value → List UInt8
  | [] => []
  | x :: xs => encode x ++ encodeAll xs
termination_by structural xs => xs

def encodeEntries : List (List UInt8 × Value) → List UInt8
  | [] => []
  | x :: xs => encodeEntry x ++ encodeEntries xs
termination_by structural xs => xs

def encodeEntry : List UInt8 × Value → List UInt8
  | (key, v) => encodeStr key ++ encode v
termination_by structural x => x

end

/-! ## Parts that are encoded already -/

theorem encodeAll_eq (xs : List Value) : encodeAll xs = (xs.map encode).flatten := by
  induction xs with
  | nil => rfl
  | cons x xs ih => rw [encodeAll, ih, List.map_cons, List.flatten_cons]

theorem array_map_encode {xs : List Value} (h : xs.length < 2 ^ 32) :
    Formats.array (xs.map encode) = encode (.array xs) := by
  rw [Formats.array, encode, encodeAll_eq, List.length_map]
  congr 1
  dsimp only [Formats.head, encodeHead]
  rw [if_pos h]
  split_ifs
  · rw [UInt8.ofNat_add]
    rfl
  · rfl
  · rfl

theorem str_eq {s : String} (h : s.toUTF8.data.toList.length < 2 ^ 32) :
    Formats.str s = encode (.str s.toUTF8.data.toList) := by
  rw [Formats.str, encode, encodeStr]
  congr 1
  dsimp only [encodeHead]
  rw [if_pos h]
  split_ifs
  · rw [UInt8.ofNat_add]
    rfl
  · rfl
  · rfl
  · rfl

theorem single_eq {s : String} (h : s.toUTF8.data.toList.length < 2 ^ 32) (v : Value) :
    Formats.single s (encode v) = encode (.map [(s.toUTF8.data.toList, v)]) := by
  have hmap : encode (.map [(s.toUTF8.data.toList, v)]) =
      0x81 :: (encode (.str s.toUTF8.data.toList) ++ encode v ++ []) := rfl
  rw [hmap, Formats.single, str_eq h, List.append_nil]
  rfl

/-- One after the other. -/
def many {α : Type} (read : Reader α) : Nat → Reader (List α)
  | 0, bytes => some ([], bytes)
  | n + 1, bytes => do
    let (x, bytes) ← read bytes
    let (xs, bytes) ← many read n bytes
    return (x :: xs, bytes)

def entry (read : Reader Value) : Reader (List UInt8 × Value) := fun bytes =>
  match decodeHead bytes with
  | some (.str n, bytes) => do
    let (key, bytes) ← take n bytes
    let (v, bytes) ← read bytes
    return ((key, v), bytes)
  | _ => none

/-- Values are nested at most `depth` times. -/
def decode : Nat → Reader Value
  | 0, _ => none
  | depth + 1, bytes =>
    match decodeHead bytes with
    | some (.nil, bytes) => some (.nil, bytes)
    | some (.bool b, bytes) => some (.bool b, bytes)
    | some (.uint n, bytes) => some (.uint (UInt64.ofNat n), bytes)
    | some (.str n, bytes) => (take n bytes).map fun p => (.str p.1, p.2)
    | some (.array n, bytes) => (many (decode depth) n bytes).map fun p => (.array p.1, p.2)
    | some (.map n, bytes) => (many (entry (decode depth)) n bytes).map fun p => (.map p.1, p.2)
    | none => none

theorem many_cons {α : Type} {read : Reader α} {n : Nat} {bytes bytes' bytes'' : List UInt8} {x : α}
    {xs : List α} (hx : read bytes = some (x, bytes')) (hxs : many read n bytes' = some (xs, bytes'')) :
    many read (n + 1) bytes = some (x :: xs, bytes'') := by
  rw [many, hx, Option.bind_eq_bind, Option.bind_some]
  dsimp only
  rw [hxs]
  rfl

/-- What follows the head of a value is shorter than the value. -/
theorem depth_succ {h : Head} {bytes : List UInt8} {depth : Nat}
    (hlen : (encodeHead h ++ bytes).length ≤ depth) : ∃ d, depth = d + 1 ∧ bytes.length ≤ d := by
  have hpos := encodeHead_pos h
  rw [List.length_append] at hlen
  exact ⟨depth - 1, by omega, by omega⟩

mutual

theorem decode_encode : (v : Value) → (depth : Nat) → (encode v).length ≤ depth →
    (rest : List UInt8) → decode depth (encode v ++ rest) = some (v, rest)
  | .nil, depth, h, rest => by
    rw [encode, ← List.append_nil (encodeHead _)] at h
    obtain ⟨d, rfl, -⟩ := depth_succ h
    rfl
  | .bool b, depth, h, rest => by
    rw [encode, ← List.append_nil (encodeHead _)] at h
    obtain ⟨d, rfl, -⟩ := depth_succ h
    rw [encode, decode, decodeHead_bool]
  | .uint n, depth, h, rest => by
    rw [encode, ← List.append_nil (encodeHead _)] at h
    obtain ⟨d, rfl, -⟩ := depth_succ h
    rw [encode, decode, decodeHead_uint n.toNat_lt]
    dsimp only
    rw [UInt64.ofNat_toNat]
  | .str bytes, depth, h, rest => by
    rw [encode, encodeStr] at h
    obtain ⟨d, rfl, -⟩ := depth_succ h
    rw [encode, encodeStr, List.append_assoc, decode, decodeHead_str]
    dsimp only
    rw [take_append]
    rfl
  | .array xs, depth, h, rest => by
    rw [encode] at h
    obtain ⟨d, rfl, hd⟩ := depth_succ h
    rw [encode, List.append_assoc, decode, decodeHead_array]
    dsimp only
    rw [many_encodeAll xs d hd]
    rfl
  | .map xs, depth, h, rest => by
    rw [encode] at h
    obtain ⟨d, rfl, hd⟩ := depth_succ h
    rw [encode, List.append_assoc, decode, decodeHead_map]
    dsimp only
    rw [many_encodeEntries xs d hd]
    rfl

theorem many_encodeAll : (xs : List Value) → (depth : Nat) → (encodeAll xs).length ≤ depth →
    (rest : List UInt8) → many (decode depth) xs.length (encodeAll xs ++ rest) = some (xs, rest)
  | [], depth, _, rest => rfl
  | x :: xs, depth, h, rest => by
    rw [encodeAll, List.length_append] at h
    rw [encodeAll, List.append_assoc]
    exact many_cons (decode_encode x depth (by omega) _) (many_encodeAll xs depth (by omega) rest)

theorem many_encodeEntries : (xs : List (List UInt8 × Value)) → (depth : Nat) →
    (encodeEntries xs).length ≤ depth → (rest : List UInt8) →
    many (entry (decode depth)) xs.length (encodeEntries xs ++ rest) = some (xs, rest)
  | [], depth, _, rest => rfl
  | x :: xs, depth, h, rest => by
    rw [encodeEntries, List.length_append] at h
    rw [encodeEntries, List.append_assoc]
    exact many_cons (entry_encodeEntry x depth (by omega) _)
      (many_encodeEntries xs depth (by omega) rest)

theorem entry_encodeEntry : (x : List UInt8 × Value) → (depth : Nat) →
    (encodeEntry x).length ≤ depth → (rest : List UInt8) →
    entry (decode depth) (encodeEntry x ++ rest) = some (x, rest)
  | (key, v), depth, h, rest => by
    rw [encodeEntry, List.length_append] at h
    rw [encodeEntry, encodeStr, List.append_assoc, List.append_assoc, entry, decodeHead_str]
    dsimp only
    rw [take_append, Option.bind_eq_bind, Option.bind_some]
    dsimp only
    rw [decode_encode v depth (by omega)]
    rfl

end

/-- The value that the bytes begin with. -/
def fromSlice (bytes : List UInt8) : Option Value := (decode bytes.length bytes).map Prod.fst

theorem fromSlice_encode (v : Value) : fromSlice (encode v) = some v := by
  have h := decode_encode v (encode v).length (le_refl _) []
  rw [List.append_nil] at h
  rw [fromSlice, h]
  rfl

end Lib.MessagePack
