import TesserasDht.Code.Basic
import TesserasDht.Lib.Formats

/-!
# STUN responses

The parser of `src/transport/nat.rs`, and the server of `src/bin/nat-test-helper.rs`. Every read of a
slice checks its bounds, as the source does at run time.
-/

open Lib.Formats

namespace TesserasDht

/-- `[u8; 12]`. -/
structure TxnId where
  bytes : Bytes
  len : bytes.length = 12
deriving DecidableEq, Repr

/-- `Ipv6Addr::from([u8; 16])`. -/
def Ipv6Addr.ofBytes (byte : Nat → UInt8) : Ipv6Addr :=
  ⟨(List.range 8).map fun i => UInt16.ofNat (ofBigEndian [byte (2 * i), byte (2 * i + 1)]), by simp⟩

namespace Stun

/-! ## Slices -/

def byteAt (data : Bytes) (i : Nat) : Outcome UInt8 :=
  match data[i]? with
  | some byte => .ok byte
  | none => .error (.panic .indexOutOfBounds)

/-- `&data[start..stop]`. -/
def slice (data : Bytes) (start stop : Nat) : Outcome Bytes :=
  if start ≤ stop ∧ stop ≤ data.length then
    .ok ((data.drop start).take (stop - start))
  else
    .error (.panic .indexOutOfBounds)

def u16FromBeBytes (hi lo : UInt8) : UInt16 := UInt16.ofNat (ofBigEndian [hi, lo])

/-! ## Attributes -/

def magicCookie : Bytes := [0x21, 0x12, 0xA4, 0x42]

def xorKey (txnId : TxnId) : Bytes := magicCookie ++ txnId.bytes

def parseXorMapped (data : Bytes) (txnId : TxnId) : Outcome SocketAddr :=
  if data.length < 8 then
    fail (.network "xor-mapped-address too short")
  else do
    let family ← byteAt data 1
    let xport := u16FromBeBytes (← byteAt data 2) (← byteAt data 3) ^^^ 0x2112
    match family with
    | 0x01 => do
      let a ← byteAt data 4
      let b ← byteAt data 5
      let c ← byteAt data 6
      let d ← byteAt data 7
      return .v4 (a ^^^ 0x21) (b ^^^ 0x12) (c ^^^ 0xA4) (d ^^^ 0x42) xport
    | 0x02 =>
      if data.length < 20 then
        fail (.network "xor-mapped-address ipv6 too short")
      else do
        let ipBytes ← (List.range 16).mapM fun i => do
          return (← byteAt data (4 + i)) ^^^ (← byteAt (xorKey txnId) i)
        return .v6 (Ipv6Addr.ofBytes fun i => ipBytes.getD i 0) xport 0 0
    | _ => fail (.network s!"unknown address family: {family}")

def parseMapped (data : Bytes) : Outcome SocketAddr :=
  if data.length < 8 then
    fail (.network "mapped-address too short")
  else do
    let family ← byteAt data 1
    let port := u16FromBeBytes (← byteAt data 2) (← byteAt data 3)
    match family with
    | 0x01 => return .v4 (← byteAt data 4) (← byteAt data 5) (← byteAt data 6) (← byteAt data 7) port
    | _ => fail (.network s!"unsupported address family: {family}")

/-- What a round of the loop comes to. -/
inductive Round
  | finished (addr : SocketAddr)
  | goOn (offset : Nat)

/-- `!3` of a `usize`. -/
def notThree : Nat := wordSize - 1 - 3

/-- A round of the `while` loop of `parse_mapped_address`, with its condition. -/
def parseAttribute (b : Build) (attrs : Bytes) (txnId : TxnId) (offset : Nat) : Outcome Round := do
  let dataStart ← b.add offset 4
  if attrs.length < dataStart then
    fail (.network "no mapped address in stun response")
  else do
    let attrType := u16FromBeBytes (← byteAt attrs offset) (← byteAt attrs (offset + 1))
    let attrLen := (u16FromBeBytes (← byteAt attrs (offset + 2)) (← byteAt attrs (offset + 3))).toNat
    let remaining ← b.sub (← b.sub attrs.length offset) 4
    let attrData ← slice attrs dataStart (← b.add dataStart (min attrLen remaining))
    match attrType with
    | 0x0020 => return .finished (← parseXorMapped attrData txnId)
    | 0x0001 => return .finished (← parseMapped attrData)
    | _ => return .goOn (← b.add offset (← b.add 4 ((attrLen + 3) &&& notThree)))

section

variable {b : Build} {attrs : Bytes} {txnId : TxnId} {offset : Nat}

theorem byteAt_drop {i : Nat} {byte : UInt8} (h : (attrs.drop offset)[i]? = some byte) :
    byteAt attrs (offset + i) = .ok byte := by
  rw [List.getElem?_drop] at h
  rw [byteAt, h]

theorem notThree_and {n : Nat} (h : n < wordSize) : n &&& notThree = n / 4 * 4 := by
  have hshift : n / 4 * 4 = n >>> 2 <<< 2 := by rw [Nat.shiftRight_eq_div_pow, Nat.shiftLeft_eq]
  refine Nat.eq_of_testBit_eq fun i => ?_
  rw [Nat.testBit_and, hshift, Nat.testBit_shiftLeft, Nat.testBit_shiftRight, notThree, wordSize,
    show 2 ^ 64 - 1 - 3 = 2 ^ 64 - (3 + 1) by rfl, Nat.testBit_two_pow_sub_succ (by decide)]
  by_cases hi : i < 64
  · by_cases hlow : i < 2
    · have h3 : ∀ i < 2, Nat.testBit 3 i = true := by decide
      simp [h3 i hlow, hlow]
    · have h3 : Nat.testBit 3 i = false :=
        Nat.testBit_lt_two_pow (lt_of_lt_of_le (by decide) (Nat.pow_le_pow_right (by decide) (not_lt.mp hlow)))
      simp [hi, h3, not_lt.mp hlow]
  · have hn : n.testBit i = false :=
      Nat.testBit_lt_two_pow (lt_of_lt_of_le h (Nat.pow_le_pow_right (by decide) (not_lt.mp hi)))
    have hle : 2 ≤ i := by omega
    simp [hi, hn, hle]

/-- A round at an attribute of which the head is there. -/
theorem parseAttribute_cons (hattrs : attrs.length ≤ isizeMax) {t₀ t₁ l₀ l₁ : UInt8} {rest : Bytes}
    (h : attrs.drop offset = t₀ :: t₁ :: l₀ :: l₁ :: rest) :
    parseAttribute b attrs txnId offset =
      match u16FromBeBytes t₀ t₁ with
      | 0x0020 => (parseXorMapped (rest.take (u16FromBeBytes l₀ l₁).toNat) txnId).map .finished
      | 0x0001 => (parseMapped (rest.take (u16FromBeBytes l₀ l₁).toNat)).map .finished
      | _ => .ok (.goOn (offset + (4 + ((u16FromBeBytes l₀ l₁).toNat + 3) / 4 * 4))) := by
  have hlen := congrArg List.length h
  simp only [List.length_drop, List.length_cons] at hlen
  have hl := (u16FromBeBytes l₀ l₁).toNat_lt
  have hrest : (attrs.drop (offset + 4)) = rest := by rw [← List.drop_drop, h]; rfl
  have hword : isizeMax + 1000000 < wordSize := by decide
  have hslice : slice attrs (offset + 4) (offset + 4 + min (u16FromBeBytes l₀ l₁).toNat rest.length) =
      .ok (rest.take (u16FromBeBytes l₀ l₁).toNat) := by
    rw [slice, if_pos (by omega), hrest, Nat.add_sub_cancel_left]
    congr 1
    rcases Nat.le_total (u16FromBeBytes l₀ l₁).toNat rest.length with hle | hle
    · rw [Nat.min_eq_left hle]
    · rw [Nat.min_eq_right hle, List.take_length, List.take_of_length_le hle]
  have h₀ : byteAt attrs offset = .ok t₀ := byteAt_drop (i := 0) (by rw [h]; rfl)
  have h₁ : byteAt attrs (offset + 1) = .ok t₁ := byteAt_drop (by rw [h]; rfl)
  have h₂ : byteAt attrs (offset + 2) = .ok l₀ := byteAt_drop (by rw [h]; rfl)
  have h₃ : byteAt attrs (offset + 3) = .ok l₁ := byteAt_drop (by rw [h]; rfl)
  have hsub : attrs.length - offset - 4 = rest.length := by omega
  rw [parseAttribute, b.add_of_lt (by omega)]
  simp only [bind, Except.bind, if_neg (show ¬attrs.length < offset + 4 by omega), h₀, h₁, h₂, h₃]
  rw [b.sub_of_le (by omega)]
  dsimp only
  rw [b.sub_of_le (by omega)]
  dsimp only
  rw [hsub, b.add_of_lt (by omega)]
  dsimp only
  rw [hslice]
  dsimp only
  split
  · cases parseXorMapped (rest.take (u16FromBeBytes l₀ l₁).toNat) txnId <;> rfl
  · cases parseMapped (rest.take (u16FromBeBytes l₀ l₁).toNat) <;> rfl
  · rw [notThree_and (by omega), b.add_of_lt (by omega)]
    dsimp only
    rw [b.add_of_lt (by omega)]
    rfl

theorem exists_head (h : offset + 4 ≤ attrs.length) :
    ∃ t₀ t₁ l₀ l₁ rest, attrs.drop offset = t₀ :: t₁ :: l₀ :: l₁ :: rest := by
  have hlen : 4 ≤ (attrs.drop offset).length := by
    rw [List.length_drop]
    omega
  match hd : attrs.drop offset with
  | [] | [_] | [_, _] | [_, _, _] =>
    rw [hd] at hlen
    simp at hlen
  | t₀ :: t₁ :: l₀ :: l₁ :: rest => exact ⟨t₀, t₁, l₀, l₁, rest, rfl⟩

/-- The next round starts further on, at most one attribute. -/
theorem parseAttribute_goOn (hattrs : attrs.length ≤ isizeMax) {next : Nat}
    (h : parseAttribute b attrs txnId offset = .ok (.goOn next)) :
    offset < next ∧ offset < attrs.length ∧ next ≤ attrs.length + 2 ^ 16 := by
  by_cases hhead : offset + 4 ≤ attrs.length
  · obtain ⟨t₀, t₁, l₀, l₁, rest, hdrop⟩ := exists_head hhead
    rw [parseAttribute_cons hattrs hdrop] at h
    have hl := (u16FromBeBytes l₀ l₁).toNat_lt
    split at h
    · cases hp : parseXorMapped (rest.take (u16FromBeBytes l₀ l₁).toNat) txnId <;> rw [hp] at h <;> cases h
    · cases hp : parseMapped (rest.take (u16FromBeBytes l₀ l₁).toNat) <;> rw [hp] at h <;> cases h
    · cases h
      omega
  · -- The head is cut off, or the sum wrapped and the offset is far outside.
    obtain ⟨dataStart, hadd, h⟩ := bind_ok h
    split at h
    · cases h
    next hin =>
      have hsum := Build.add_ok hadd
      have hword : isizeMax + 4 < wordSize := by decide
      have hout : byteAt attrs offset = .error (.panic .indexOutOfBounds) := by
        rw [byteAt, List.getElem?_eq_none]
        by_contra hlt
        rw [Nat.mod_eq_of_lt (by omega)] at hsum
        omega
      rw [hout] at h
      cases h

end

/-! ## Responses -/

/-- The `while` loop of `parse_mapped_address`. -/
def parseMappedAddressFrom (b : Build) (attrs : VecU8) (txnId : TxnId) (offset : Nat) : Outcome SocketAddr :=
  match _h : parseAttribute b attrs.val txnId offset with
  | .error e => .error e
  | .ok (.finished addr) => .ok addr
  | .ok (.goOn next) => parseMappedAddressFrom b attrs txnId next
termination_by attrs.val.length - offset
decreasing_by
  have := parseAttribute_goOn attrs.property _h
  omega

def parseMappedAddress (b : Build) (attrs : VecU8) (txnId : TxnId) : Outcome SocketAddr :=
  parseMappedAddressFrom b attrs txnId 0

/-- What `discover_external_addr` makes of the response that it received. -/
def parseResponse (b : Build) (response : VecU8) (txnId : TxnId) : Outcome SocketAddr :=
  if response.val.length < 20 then
    fail (.network "stun response too short")
  else if (response.val.drop 4).take 4 ≠ magicCookie then
    fail (.network "invalid stun magic cookie")
  else if (response.val.drop 8).take 12 ≠ txnId.bytes then
    fail (.network "stun transaction id mismatch")
  else do
    let msgLen := (u16FromBeBytes (← byteAt response.val 2) (← byteAt response.val 3)).toNat
    let attrs := (response.val.drop 20).take (min msgLen (response.val.length - 20))
    parseMappedAddress b ⟨attrs, by
      have := response.property
      simp only [attrs, List.length_take, List.length_drop]
      omega⟩ txnId

def bindingRequest (txnId : TxnId) : Bytes := [0x00, 0x01, 0x00, 0x00] ++ magicCookie ++ txnId.bytes

/-- The value of an XOR-MAPPED-ADDRESS attribute for an IPv4 address. -/
def xorMappedV4 (a b c d : UInt8) (port : UInt16) : Bytes :=
  [0x00, 0x01] ++ bigEndian 2 (port ^^^ 0x2112).toNat ++ [a ^^^ 0x21, b ^^^ 0x12, c ^^^ 0xA4, d ^^^ 0x42]

/-- What `run_stun_server` sends back to the sender of a request. -/
def serverResponse (request : Bytes) (sender : SocketAddr) : Option Bytes :=
  if request.length < 20 then
    none
  else if request.take 2 ≠ [0x00, 0x01] then
    none
  else if (request.drop 4).take 4 ≠ magicCookie then
    none
  else
    match sender with
    | .v4 a b c d port =>
      let attr := [0x00, 0x20, 0x00, 0x08] ++ xorMappedV4 a b c d port
      some ([0x01, 0x01] ++ bigEndian 2 attr.length ++ magicCookie ++ (request.drop 8).take 12 ++ attr)
    | .v6 _ _ _ _ => none

end Stun

end TesserasDht
