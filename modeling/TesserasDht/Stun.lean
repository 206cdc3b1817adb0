import TesserasDht.Messages
import TesserasDht.Code.Stun

/-!
# What a STUN response says

Attributes of other types are stepped over with their padding, up to the first one that holds an address.
-/

open Lib Lib.Formats Lib.Lists

namespace TesserasDht.Stun

open Messages (length_octets segmentsOf_flatMap)

/-! ## No panic -/

/-- The function gives a value or an error. -/
def Safe {α : Type} (x : Outcome α) : Prop := ∀ p, x ≠ .error (.panic p)

section

variable {α β : Type} {data : Bytes}

theorem safe_ok (a : α) : Safe (.ok a : Outcome α) := by
  intro p h
  cases h

theorem safe_fail (e : TesseraError) : Safe (fail e : Outcome α) := by
  intro p h
  cases h

theorem Safe.bind {x : Outcome α} {f : α → Outcome β} (hx : Safe x) (hf : ∀ a, x = .ok a → Safe (f a)) :
    Safe (x >>= f) := by
  intro p h
  rcases bind_error h with h | ⟨a, ha, h⟩
  · exact hx p h
  · exact hf a ha p h

theorem Safe.map {x : Outcome α} (hx : Safe x) (f : α → β) : Safe (x.map f) := by
  cases x with
  | error e =>
    intro p h
    cases h
    exact hx p rfl
  | ok a => exact safe_ok (f a)

theorem safe_byteAt {i : Nat} (h : i < data.length) : Safe (byteAt data i) := by
  rw [byteAt, List.getElem?_eq_getElem h]
  exact safe_ok _

theorem length_xorKey (txnId : TxnId) : (xorKey txnId).length = 16 := by
  rw [xorKey, List.length_append, txnId.len]
  rfl

theorem parseXorMapped_safe (data : Bytes) (txnId : TxnId) : Safe (parseXorMapped data txnId) := by
  unfold parseXorMapped
  split
  · exact safe_fail _
  next hlen =>
    have hread (i : Nat) (hi : i < 8) : Safe (byteAt data i) := safe_byteAt (by omega)
    refine (hread 1 (by decide)).bind fun family _ => ?_
    refine (hread 2 (by decide)).bind fun hi _ => (hread 3 (by decide)).bind fun lo _ => ?_
    dsimp only
    split
    · refine (hread 4 (by decide)).bind fun a _ => (hread 5 (by decide)).bind fun b _ => ?_
      exact (hread 6 (by decide)).bind fun c _ => (hread 7 (by decide)).bind fun d _ => safe_ok _
    · split
      · exact safe_fail _
      next hlong =>
        refine Safe.bind ?_ fun _ _ => safe_ok _
        have hkey := length_xorKey txnId
        obtain ⟨bytes, hbytes, -⟩ := mapM_exists (List.range 16)
          (f := fun i => do return (← byteAt data (4 + i)) ^^^ (← byteAt (xorKey txnId) i))
          (P := fun _ _ => True) (by
            intro i hi
            have hi := List.mem_range.mp hi
            exact ⟨data[4 + i] ^^^ (xorKey txnId)[i], by
              simp [byteAt, List.getElem?_eq_getElem (show 4 + i < data.length by omega),
                List.getElem?_eq_getElem (show i < (xorKey txnId).length by omega)]
              rfl, trivial⟩)
        rw [hbytes]
        exact safe_ok _
    · exact safe_fail _

theorem parseMapped_safe (data : Bytes) : Safe (parseMapped data) := by
  unfold parseMapped
  split
  · exact safe_fail _
  next hlen =>
    have hread (i : Nat) (hi : i < 8) : Safe (byteAt data i) := safe_byteAt (by omega)
    refine (hread 1 (by decide)).bind fun family _ => ?_
    refine (hread 2 (by decide)).bind fun hi _ => (hread 3 (by decide)).bind fun lo _ => ?_
    dsimp only
    split
    · refine (hread 4 (by decide)).bind fun a _ => (hread 5 (by decide)).bind fun b _ => ?_
      exact (hread 6 (by decide)).bind fun c _ => (hread 7 (by decide)).bind fun d _ => safe_ok _
    · exact safe_fail _

end

section

variable {b : Build} {txnId : TxnId}

theorem parseAttribute_safe {attrs : Bytes} {offset : Nat} (hattrs : attrs.length ≤ isizeMax)
    (hoffset : offset + 4 < wordSize) : Safe (parseAttribute b attrs txnId offset) := by
  by_cases hhead : offset + 4 ≤ attrs.length
  · obtain ⟨t₀, t₁, l₀, l₁, rest, hdrop⟩ := exists_head hhead
    rw [parseAttribute_cons hattrs hdrop]
    split
    · exact (parseXorMapped_safe _ _).map _
    · exact (parseMapped_safe _).map _
    · exact safe_ok _
  · rw [parseAttribute, b.add_of_lt hoffset]
    simp only [bind, Except.bind, if_pos (show attrs.length < offset + 4 by omega)]
    exact safe_fail _

theorem parseMappedAddressFrom_safe (attrs : VecU8) (offset : Nat) (hoffset : offset + 4 < wordSize) :
    Safe (parseMappedAddressFrom b attrs txnId offset) := by
  fun_induction parseMappedAddressFrom b attrs txnId offset with
  | case1 offset e h =>
    intro p hp
    cases hp
    exact parseAttribute_safe attrs.property hoffset p h
  | case2 offset addr h => exact safe_ok addr
  | case3 offset next h ih =>
    have hword : isizeMax + 70000 < wordSize := by decide
    have hnext := parseAttribute_goOn attrs.property h
    exact ih (by omega)

end

/-! ## Attributes -/

/-- An attribute that holds no address. The padding may be any bytes. -/
structure Attribute where
  attrType : UInt16
  value : Bytes
  padding : Bytes
  notMapped : attrType ≠ 0x0001
  notXorMapped : attrType ≠ 0x0020
  short : value.length < 2 ^ 16
  padded : value.length + padding.length = (value.length + 3) / 4 * 4

def header (attrType : UInt16) (length : Nat) : Bytes := bigEndian 2 attrType.toNat ++ bigEndian 2 length

def Attribute.bytes (a : Attribute) : Bytes := header a.attrType a.value.length ++ a.value ++ a.padding

/-- An address and how an attribute holds it. The first byte of the value is not looked at. -/
inductive MappedAddress
  | xorV4 (reserved a b c d : UInt8) (port : UInt16)
  | xorV6 (reserved : UInt8) (ip : Ipv6Addr) (port : UInt16)
  | v4 (reserved a b c d : UInt8) (port : UInt16)

def MappedAddress.addr : MappedAddress → SocketAddr
  | .xorV4 _ a b c d port => .v4 a b c d port
  | .xorV6 _ ip port => .v6 ip port 0 0
  | .v4 _ a b c d port => .v4 a b c d port

def MappedAddress.attrType : MappedAddress → UInt16
  | .xorV4 .. | .xorV6 .. => 0x0020
  | .v4 .. => 0x0001

def MappedAddress.value (txnId : TxnId) : MappedAddress → Bytes
  | .xorV4 reserved a b c d port =>
    reserved :: 0x01 :: bigEndian 2 (port ^^^ 0x2112).toNat ++ Bytes.xor [a, b, c, d] magicCookie
  | .xorV6 reserved ip port =>
    reserved :: 0x02 :: bigEndian 2 (port ^^^ 0x2112).toNat ++ Bytes.xor ip.octets (xorKey txnId)
  | .v4 reserved a b c d port => reserved :: 0x01 :: bigEndian 2 port.toNat ++ [a, b, c, d]

/-- The value needs no padding. -/
def MappedAddress.bytes (txnId : TxnId) (m : MappedAddress) : Bytes :=
  header m.attrType (m.value txnId).length ++ m.value txnId

theorem exists_bytes (x : UInt16) : ∃ hi lo, bigEndian 2 x.toNat = [hi, lo] ∧ u16FromBeBytes hi lo = x := by
  obtain ⟨hi, lo, h⟩ := List.length_eq_two.mp (length_bigEndian 2 x.toNat)
  refine ⟨hi, lo, h, ?_⟩
  rw [u16FromBeBytes, ← h, ofBigEndian_bigEndian x.toNat_lt, UInt16.ofNat_toNat]

section

variable {b : Build} {txnId : TxnId} {attrs : Bytes} {offset : Nat}

/-- A round at an attribute that is written out. -/
theorem parseAttribute_header (hattrs : attrs.length ≤ isizeMax) {attrType : UInt16} {value rest : Bytes}
    (hshort : value.length < 2 ^ 16) : attrs.drop offset = header attrType value.length ++ value ++ rest →
    parseAttribute b attrs txnId offset =
      match attrType with
      | 0x0020 => (parseXorMapped value txnId).map .finished
      | 0x0001 => (parseMapped value).map .finished
      | _ => .ok (.goOn (offset + (4 + (value.length + 3) / 4 * 4))) := by
  intro h
  obtain ⟨t₀, t₁, htype, ht⟩ := exists_bytes attrType
  obtain ⟨l₀, l₁, hlength, hl⟩ := exists_bytes (UInt16.ofNat value.length)
  have hvalue : (UInt16.ofNat value.length).toNat = value.length := by
    rw [UInt16.toNat_ofNat']
    exact Nat.mod_eq_of_lt hshort
  rw [hvalue] at hlength
  rw [header, htype, hlength] at h
  have hround : parseAttribute b attrs txnId offset = _ := parseAttribute_cons hattrs h
  rw [ht, hl, hvalue] at hround
  simp only [List.append_eq, List.nil_append, List.take_left] at hround
  exact hround

theorem drop_next {front rest : Bytes} {n : Nat} (h : attrs.drop offset = front ++ rest) (hn : front.length = n) :
    attrs.drop (offset + n) = rest := by
  rw [← List.drop_drop, h, ← hn, List.drop_left]

theorem Attribute.length_bytes (a : Attribute) : a.bytes.length = 4 + (a.value.length + 3) / 4 * 4 := by
  simp only [Attribute.bytes, header, List.length_append, length_bigEndian]
  have := a.padded
  omega

theorem parseAttribute_other (hattrs : attrs.length ≤ isizeMax) (a : Attribute) {rest : Bytes}
    (h : attrs.drop offset = a.bytes ++ rest) :
    parseAttribute b attrs txnId offset = .ok (.goOn (offset + a.bytes.length)) := by
  rw [Attribute.bytes, List.append_assoc] at h
  rw [parseAttribute_header hattrs a.short h, a.length_bytes]
  split
  next heq => exact absurd heq a.notXorMapped
  next heq => exact absurd heq a.notMapped
  next => rfl

theorem parseMappedAddressFrom_others (attrs : VecU8) (others : List Attribute) {rest : Bytes} (offset : Nat)
    (h : attrs.val.drop offset = others.flatMap Attribute.bytes ++ rest) :
    ∃ next, attrs.val.drop next = rest ∧
      parseMappedAddressFrom b attrs txnId offset = parseMappedAddressFrom b attrs txnId next := by
  induction others generalizing offset with
  | nil => exact ⟨offset, h, rfl⟩
  | cons a others ih =>
    rw [List.flatMap_cons, List.append_assoc] at h
    obtain ⟨next, hnext, heq⟩ := ih _ (drop_next h rfl)
    refine ⟨next, hnext, ?_⟩
    rw [parseMappedAddressFrom]
    split
    next e he =>
      rw [parseAttribute_other attrs.property a h] at he
      cases he
    next addr he =>
      rw [parseAttribute_other attrs.property a h] at he
      cases he
    next n he =>
      rw [parseAttribute_other attrs.property a h] at he
      cases he
      exact heq

end

/-! ## The address -/

theorem segmentsOf_eq (v : Bytes) {n : Nat} (h : v.length = 2 * n) :
    (List.range n).map (fun i => UInt16.ofNat (ofBigEndian [v.getD (2 * i) 0, v.getD (2 * i + 1) 0])) =
      segmentsOf v := by
  induction n generalizing v with
  | zero =>
    rw [List.eq_nil_of_length_eq_zero h]
    rfl
  | succ n ih =>
    match v, h with
    | hi :: lo :: rest, h =>
      rw [segmentsOf, List.range_succ_eq_map, List.map_cons, List.map_map,
        ← ih rest (by simp only [List.length_cons] at h; omega)]
      rfl

theorem ofBytes_octets (ip : Ipv6Addr) : Ipv6Addr.ofBytes (fun i => ip.octets.getD i 0) = ip := by
  cases ip with
  | mk segments len =>
    have hsegments := segmentsOf_eq _ (n := 8) (length_octets ⟨segments, len⟩)
    have hback : segmentsOf (Ipv6Addr.octets ⟨segments, len⟩) = segments := segmentsOf_flatMap segments
    simp only [Ipv6Addr.ofBytes, Ipv6Addr.mk.injEq]
    exact hsegments.trans hback

theorem xor_twice (x y : UInt8) : x ^^^ y ^^^ y = x := by rw [UInt8.xor_assoc, UInt8.xor_self, UInt8.xor_zero]

theorem xor_port (port : UInt16) : port ^^^ 0x2112 ^^^ 0x2112 = port := by
  rw [UInt16.xor_assoc, UInt16.xor_self, UInt16.xor_zero]

section

variable (txnId : TxnId)

theorem parseMapped_v4 (reserved a b c d : UInt8) (port : UInt16) :
    parseMapped (reserved :: 0x01 :: bigEndian 2 port.toNat ++ [a, b, c, d]) = .ok (.v4 a b c d port) := by
  obtain ⟨hi, lo, hport, hback⟩ := exists_bytes port
  rw [hport, ← hback]
  rfl

theorem parseXorMapped_v4 (reserved a b c d : UInt8) (port : UInt16) :
    parseXorMapped (reserved :: 0x01 :: bigEndian 2 (port ^^^ 0x2112).toNat ++ Bytes.xor [a, b, c, d] magicCookie) txnId =
      .ok (.v4 a b c d port) := by
  obtain ⟨hi, lo, hport, hback⟩ := exists_bytes (port ^^^ 0x2112)
  rw [hport]
  have heq : parseXorMapped (reserved :: 0x01 :: [hi, lo] ++ Bytes.xor [a, b, c, d] magicCookie) txnId =
      .ok (.v4 (a ^^^ 0x21 ^^^ 0x21) (b ^^^ 0x12 ^^^ 0x12) (c ^^^ 0xA4 ^^^ 0xA4) (d ^^^ 0x42 ^^^ 0x42)
        (u16FromBeBytes hi lo ^^^ 0x2112)) := rfl
  rw [heq, hback, xor_port]
  simp only [xor_twice]

/-- The loop over the sixteen bytes takes the mask off again. -/
theorem unmask (front : Bytes) (hfront : front.length = 4) {key ip : Bytes} (hkey : key.length = 16)
    (hip : ip.length = 16) :
    ((List.range 16).mapM fun i => do
        return (← byteAt (front ++ Bytes.xor ip key) (4 + i)) ^^^ (← byteAt key i) : Outcome Bytes) = .ok ip := by
  obtain ⟨bytes, hbytes, hall⟩ := mapM_exists (List.range 16)
    (f := fun i => do return (← byteAt (front ++ Bytes.xor ip key) (4 + i)) ^^^ (← byteAt key i))
    (P := fun i byte => ip[i]? = some byte) (by
      intro i hi
      have hi := List.mem_range.mp hi
      refine ⟨ip[i], ?_, List.getElem?_eq_getElem _⟩
      have hmasked : (front ++ Bytes.xor ip key)[4 + i]? = some (ip[i] ^^^ key[i]) := by
        rw [List.getElem?_append_right (by omega), hfront, Nat.add_sub_cancel_left, Bytes.xor,
          List.getElem?_zipWith, List.getElem?_eq_getElem (by omega), List.getElem?_eq_getElem (by omega)]
      simp only [byteAt, hmasked, List.getElem?_eq_getElem (show i < key.length by omega), bind, Except.bind, pure,
        Except.pure, xor_twice])
  have hlen : bytes.length = 16 := by rw [← hall.length_eq, List.length_range]
  rw [hbytes]
  refine congrArg _ (List.ext_getElem (by omega) fun i hi hi' => ?_)
  have hget := hall.get (i := i) (by rw [List.length_range]; omega) hi
  rw [List.get_eq_getElem, List.getElem_range, List.getElem?_eq_getElem hi'] at hget
  exact (Option.some.inj hget).symm

theorem parseXorMapped_v6 (reserved : UInt8) (ip : Ipv6Addr) (port : UInt16) :
    parseXorMapped (reserved :: 0x02 :: bigEndian 2 (port ^^^ 0x2112).toNat ++ Bytes.xor ip.octets (xorKey txnId))
      txnId = .ok (.v6 ip port 0 0) := by
  obtain ⟨hi, lo, hport, hback⟩ := exists_bytes (port ^^^ 0x2112)
  rw [hport]
  have hlen : ([reserved, 0x02, hi, lo] ++ Bytes.xor ip.octets (xorKey txnId)).length = 20 := by
    rw [List.length_append, Bytes.xor_length, length_octets, length_xorKey]
    rfl
  have hmask := unmask [reserved, 0x02, hi, lo] rfl (length_xorKey txnId) (length_octets ip)
  have hread : byteAt ([reserved, 0x02, hi, lo] ++ Bytes.xor ip.octets (xorKey txnId)) 1 = .ok 0x02 ∧
      byteAt ([reserved, 0x02, hi, lo] ++ Bytes.xor ip.octets (xorKey txnId)) 2 = .ok hi ∧
      byteAt ([reserved, 0x02, hi, lo] ++ Bytes.xor ip.octets (xorKey txnId)) 3 = .ok lo := ⟨rfl, rfl, rfl⟩
  change parseXorMapped ([reserved, 0x02, hi, lo] ++ Bytes.xor ip.octets (xorKey txnId)) txnId = _
  generalize [reserved, 0x02, hi, lo] ++ Bytes.xor ip.octets (xorKey txnId) = data at hlen hmask hread
  obtain ⟨hfamily, hhi, hlo⟩ := hread
  rw [parseXorMapped, if_neg (by omega), hfamily, hhi, hlo]
  simp only [bind, Except.bind] at hmask ⊢
  rw [if_neg (by omega), hmask, hback, xor_port]
  exact congrArg (fun ip => Except.ok (SocketAddr.v6 ip port 0 0)) (ofBytes_octets ip)

variable {txnId} {b : Build} {attrs : VecU8}

theorem parseMappedAddressFrom_finished {offset : Nat} {addr : SocketAddr}
    (h : parseAttribute b attrs.val txnId offset = .ok (.finished addr)) :
    parseMappedAddressFrom b attrs txnId offset = .ok addr := by
  rw [parseMappedAddressFrom]
  split
  next e he => cases h.symm.trans he
  next addr' he =>
    cases h.symm.trans he
    rfl
  next n he => cases h.symm.trans he

theorem MappedAddress.length_value (m : MappedAddress) :
    (m.value txnId).length = 8 ∨ (m.value txnId).length = 20 := by
  cases m with
  | xorV4 | v4 => exact Or.inl rfl
  | xorV6 reserved ip port =>
    refine Or.inr ?_
    simp only [MappedAddress.value, List.length_append, List.length_cons, length_bigEndian, Bytes.xor_length,
      length_octets, length_xorKey]
    rfl

theorem parseMappedAddressFrom_mapped (m : MappedAddress) {rest : Bytes} {offset : Nat}
    (h : attrs.val.drop offset = m.bytes txnId ++ rest) :
    parseMappedAddressFrom b attrs txnId offset = .ok m.addr := by
  apply parseMappedAddressFrom_finished
  have hshort : (m.value txnId).length = 8 ∨ (m.value txnId).length = 20 := m.length_value
  refine (parseAttribute_header attrs.property (by omega) h).trans ?_
  cases m with
  | xorV4 reserved a₀ a₁ a₂ a₃ port =>
    exact congrArg (Except.map Round.finished) (parseXorMapped_v4 txnId reserved a₀ a₁ a₂ a₃ port)
  | xorV6 reserved ip port => exact congrArg (Except.map Round.finished) (parseXorMapped_v6 txnId reserved ip port)
  | v4 reserved a₀ a₁ a₂ a₃ port => exact congrArg (Except.map Round.finished) (parseMapped_v4 reserved a₀ a₁ a₂ a₃ port)

end

/-- No byte string makes the parser panic, and it returns the address that comes first. -/
theorem mapped_address_found (b : Build) (txnId : TxnId) :
    (∀ attrs, Safe (parseMappedAddress b attrs txnId)) ∧
    ∀ (others : List Attribute) (mapped : MappedAddress) (rest : Bytes) (attrs : VecU8),
      attrs.val = others.flatMap Attribute.bytes ++ (mapped.bytes txnId ++ rest) →
      parseMappedAddress b attrs txnId = .ok mapped.addr := by
  refine ⟨fun attrs => parseMappedAddressFrom_safe attrs 0 (by decide), fun others mapped rest attrs h => ?_⟩
  obtain ⟨next, hnext, heq⟩ := parseMappedAddressFrom_others attrs others 0 h
  exact heq.trans (parseMappedAddressFrom_mapped mapped hnext)

def software : Attribute := ⟨0x8022, [0x41], [0, 1, 2], by decide, by decide, by decide, by decide⟩

def zeroTxn : TxnId := ⟨List.replicate 12 0, rfl⟩

theorem mapped_address_found_after_software : parseMappedAddress .debug
    ⟨software.bytes ++ ((MappedAddress.xorV4 0 127 0 0 1 4433).bytes zeroTxn ++ [7]), by decide⟩ zeroTxn =
      .ok (.v4 127 0 0 1 4433) :=
  (mapped_address_found .debug zeroTxn).2 [software] (.xorV4 0 127 0 0 1 4433) [7] _ (by rfl)

/-! ## The server of the tests -/

theorem parseResponse_serverResponse (build : Build) (txnId : TxnId) (a b c d : UInt8) (port : UInt16) :
    ∃ resp : VecU8, serverResponse (bindingRequest txnId) (.v4 a b c d port) = some resp.val ∧
      parseResponse build resp txnId = .ok (.v4 a b c d port) := by
  have hlen := txnId.len
  generalize hattr : (MappedAddress.xorV4 0 a b c d port).bytes txnId = attr
  have hattrlen : attr.length = 12 := by
    rw [← hattr]
    rfl
  have hrequest : serverResponse (bindingRequest txnId) (.v4 a b c d port) =
      some ([0x01, 0x01, 0x00, 0x0C] ++ magicCookie ++ txnId.bytes ++ attr) := by
    have hlong : ¬(bindingRequest txnId).length < 20 := by simp [bindingRequest, magicCookie, hlen]
    have htype : (bindingRequest txnId).take 2 = [0x00, 0x01] := rfl
    have hcookie : ((bindingRequest txnId).drop 4).take 4 = magicCookie := rfl
    have htxn : ((bindingRequest txnId).drop 8).take 12 = txnId.bytes :=
      List.take_of_length_le (le_of_eq txnId.len)
    have hsame : [0x00, 0x20, 0x00, 0x08] ++ xorMappedV4 a b c d port = attr := by
      have hvalue : ((MappedAddress.xorV4 0 a b c d port).value txnId).length = 8 := rfl
      have hheader : header (MappedAddress.xorV4 0 a b c d port).attrType 8 = [0x00, 0x20, 0x00, 0x08] :=
        (by decide : header 0x0020 8 = _)
      rw [← hattr, MappedAddress.bytes, hvalue, hheader]
      rfl
    simp only [serverResponse, if_neg hlong, htype, hcookie, htxn, hsame, hattrlen, ne_eq, not_true_eq_false,
      if_false]
    rfl
  generalize hresp : [0x01, 0x01, 0x00, 0x0C] ++ magicCookie ++ txnId.bytes ++ attr = resp at hrequest
  have hresplen : resp.length = 32 := by simp [← hresp, magicCookie, hlen, hattrlen]
  have hcookie : (resp.drop 4).take 4 = magicCookie := by
    rw [← hresp]
    rfl
  have htxn : (resp.drop 8).take 12 = txnId.bytes := by
    rw [← hresp]
    exact List.take_left' hlen
  have hattrs : resp.drop 20 = attr := by
    rw [← hresp]
    exact List.drop_left' (by simp [magicCookie, hlen])
  have hmsgLen : byteAt resp 2 = .ok 0 ∧ byteAt resp 3 = .ok 12 := by
    rw [← hresp]
    exact ⟨rfl, rfl⟩
  have hle : resp.length ≤ isizeMax := by
    rw [hresplen, isizeMax]
    omega
  refine ⟨⟨resp, hle⟩, hrequest, ?_⟩
  have htake : attr.take (min (u16FromBeBytes 0 12).toNat (32 - 20)) = attr := List.take_of_length_le (le_of_eq hattrlen)
  unfold parseResponse
  simp only [hcookie, htxn, hmsgLen, hattrs, hresplen, htake, bind, Except.bind, ne_eq, not_true_eq_false, if_false]
  have hdrop : attr.drop 0 = (MappedAddress.xorV4 0 a b c d port).bytes txnId ++ [] := by
    rw [hattr, List.append_nil]
    rfl
  exact parseMappedAddressFrom_mapped (.xorV4 0 a b c d port) hdrop

end TesserasDht.Stun
