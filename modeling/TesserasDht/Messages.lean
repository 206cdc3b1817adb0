import TesserasDht.Code.MessageSerde
import TesserasDht.Tokens

/-!
# Messages come back

A message is read back as it was written, but for the flow info and the scope of IPv6 addresses. What
is read back is written as the message was, so that its signature still fits.
-/

open Lib Lib.Formats Lib.MessagePack

namespace TesserasDht.Messages

open Serde Tokens

/-! ## Fields -/

theorem toText_text (s : String) : toText (text s) = some s := by
  have hbytes : (⟨(text s).toArray⟩ : ByteArray) = s.toUTF8 := by simp [text]
  rw [toText, hbytes, String.fromUTF8?]
  exact dif_pos s.isValidUTF8

theorem toVariant_fields (name : String) (fs : List Value) :
    toVariant (fields name fs) = some (name, .array fs) := by
  simp only [fields, variant, toVariant, toText_text, Option.map_some]

theorem toFixed32_ofArray32 (v : Bytes32) : toFixed32 (ofArray32 v) = some v := by
  rw [toFixed32, ofArray32, toBytes_ofBytes]
  exact toArray32_bytes v

theorem toWord16_ofWord16 (x : UInt16) : toWord16 (ofWord16 x) = some x := by
  have hlt : x.toUInt64.toNat < 65536 := x.toNat_lt
  rw [ofWord16, toWord16, if_pos hlt, UInt16.toUInt16_toUInt64]

theorem toList_ofList {α : Type} {write : α → Value} {read : Value → Option α} {back : α → α}
    (h : ∀ x, read (write x) = some (back x)) (l : List α) :
    toList read (ofList write l) = some (l.map back) := by
  rw [ofList, toList]
  induction l with
  | nil => rfl
  | cons x xs ih => rw [List.map_cons, List.mapM_cons, h, ih]; rfl

/-! ## Addresses and nodes -/

theorem segmentsOf_flatMap (l : List UInt16) :
    segmentsOf (l.flatMap fun x => bigEndian 2 x.toNat) = l := by
  induction l with
  | nil => rfl
  | cons x xs ih =>
    have hx : ofBigEndian (bigEndian 2 x.toNat) = x.toNat := ofBigEndian_bigEndian x.toNat_lt
    have hcons : segmentsOf (bigEndian 2 x.toNat ++ xs.flatMap fun x => bigEndian 2 x.toNat) =
        UInt16.ofNat (ofBigEndian (bigEndian 2 x.toNat)) ::
          segmentsOf (xs.flatMap fun x => bigEndian 2 x.toNat) := rfl
    rw [List.flatMap_cons, hcons, hx, UInt16.ofNat_toNat, ih]

theorem length_octets (ip : Ipv6Addr) : ip.octets.length = 16 := by
  rw [Ipv6Addr.octets, List.length_flatMap]
  simp only [length_bigEndian, List.map_const', List.sum_replicate, ip.len, smul_eq_mul]

theorem fromOctets_octets (ip : Ipv6Addr) : Ipv6Addr.fromOctets ip.octets = some ip := by
  have hsegments : segmentsOf ip.octets = ip.segments := segmentsOf_flatMap ip.segments
  rw [Ipv6Addr.fromOctets, dif_pos (length_octets ip)]
  cases ip
  simp only [hsegments]

theorem socketAddr_fromValue (a : SocketAddr) : SocketAddr.fromValue a.toValue = some a.onWire := by
  cases a with
  | v4 a b c d port =>
    simp [SocketAddr.fromValue, SocketAddr.toValue, toVariant_fields, toBytes_ofBytes,
      toWord16_ofWord16, SocketAddr.onWire]
  | v6 ip port flowinfo scopeId =>
    simp [SocketAddr.fromValue, SocketAddr.toValue, toVariant_fields, toBytes_ofBytes,
      toWord16_ofWord16, fromOctets_octets, SocketAddr.onWire]

theorem nodeInfo_fromValue (n : NodeInfoSerde) : NodeInfoSerde.fromValue n.toValue = some n.onWire := by
  simp [NodeInfoSerde.fromValue, NodeInfoSerde.toValue, namedField, required, toFixed32_ofArray32,
    toList_ofList socketAddr_fromValue, NodeInfoSerde.onWire]

theorem observed_fromValue (o : Option SocketAddr) :
    toOption SocketAddr.fromValue (o.elim .nil SocketAddr.toValue) =
      some (o.map SocketAddr.onWire) := by
  cases o with
  | none => rfl
  | some a =>
    have hsome : toOption SocketAddr.fromValue a.toValue = (SocketAddr.fromValue a.toValue).map some := by
      cases a <;> rfl
    rw [Option.elim_some, hsome, socketAddr_fromValue]
    rfl

theorem powProof_fromValue (p : PowProof) : PowProof.fromValue p.toValue = some p := by
  simp [PowProof.fromValue, PowProof.toValue, namedField, required, toWord, ofByte, toByte_uint]

/-! ## Payloads -/

theorem fromValue_fields (name : String) (fs : List Value) :
    Payload.fromValue (fields name fs) = Payload.fromContent (.array fs) name := by
  rw [Payload.fromValue, toVariant_fields]
  rfl

section

variable {name n n₀ n₁ n₂ : String} {α β γ : Type} {w w' w'' : Value} {a : α} {b : β} {c : γ}

theorem read_one (make : α → Payload) (get : Option Value → Option α)
    (hname : ∀ v, Payload.fromContent v name = (namedField v 1 0 n).bind fun x =>
      (get x).bind fun a => some (make a))
    (ha : get (some w) = some a) : Payload.fromValue (fields name [w]) = some (make a) := by
  rw [fromValue_fields, hname]
  change ((get (some w)).bind fun a => some (make a)) = _
  rw [ha]
  rfl

theorem read_two (make : α → β → Payload) (get : Option Value → Option α) (get' : Option Value → Option β)
    (hname : ∀ v, Payload.fromContent v name = (namedField v 2 0 n₀).bind fun x =>
      (get x).bind fun a => (namedField v 2 1 n₁).bind fun x => (get' x).bind fun b => some (make a b))
    (ha : get (some w) = some a) (hb : get' (some w') = some b) :
    Payload.fromValue (fields name [w, w']) = some (make a b) := by
  rw [fromValue_fields, hname]
  change ((get (some w)).bind fun a => (get' (some w')).bind fun b => some (make a b)) = _
  rw [ha, hb]
  rfl

theorem read_three (make : α → β → γ → Payload) (get : Option Value → Option α)
    (get' : Option Value → Option β) (get'' : Option Value → Option γ)
    (hname : ∀ v, Payload.fromContent v name = (namedField v 3 0 n₀).bind fun x =>
      (get x).bind fun a => (namedField v 3 1 n₁).bind fun x => (get' x).bind fun b =>
        (namedField v 3 2 n₂).bind fun x => (get'' x).bind fun c => some (make a b c))
    (ha : get (some w) = some a) (hb : get' (some w') = some b) (hc : get'' (some w'') = some c) :
    Payload.fromValue (fields name [w, w', w'']) = some (make a b c) := by
  rw [fromValue_fields, hname]
  change ((get (some w)).bind fun a => (get' (some w')).bind fun b => (get'' (some w'')).bind fun c =>
    some (make a b c)) = _
  rw [ha, hb, hc]
  rfl

end

/-- The fields of every variant are read in the order in which they are written. -/
theorem payload_fromValue (p : Payload) : Payload.fromValue p.toValue = some p.onWire := by
  have haddrs := toList_ofList socketAddr_fromValue
  have hnodes := toList_ofList nodeInfo_fromValue
  cases p with
  | pingRequest =>
    rw [Payload.toValue, Payload.fromValue, toVariant, toText_text]
    rfl
  | findNodeRequest target =>
    exact read_one .findNodeRequest (required toFixed32) (fun _ => rfl) (toFixed32_ofArray32 target)
  | getProvidersRequest key =>
    exact read_one .getProvidersRequest (required toFixed32) (fun _ => rfl) (toFixed32_ofArray32 key)
  | addProviderRequest key addrs =>
    exact read_two .addProviderRequest (required toFixed32) (required (toList SocketAddr.fromValue))
      (fun _ => rfl) (toFixed32_ofArray32 key) (haddrs addrs)
  | getChunkRequest hash =>
    exact read_one .getChunkRequest (required toFixed32) (fun _ => rfl) (toFixed32_ofArray32 hash)
  | putChunkRequest hash data =>
    exact read_two .putChunkRequest (required toFixed32) (required toBytes) (fun _ => rfl)
      (toFixed32_ofArray32 hash) (toBytes_ofBytes data)
  | relayRequest targetId payload hops =>
    exact read_three .relayRequest (required toFixed32) (required toBytes) (defaulted 0 toByte)
      (fun _ => rfl) (toFixed32_ofArray32 targetId) (toBytes_ofBytes payload) (toByte_uint hops)
  | connectRequest addrs id key =>
    exact read_three .connectRequest (required (toList SocketAddr.fromValue)) (required toFixed32)
      (required toFixed32) (fun _ => rfl) (haddrs addrs) (toFixed32_ofArray32 id)
      (toFixed32_ofArray32 key)
  | pingResponse observed =>
    exact read_one .pingResponse (defaulted none (toOption SocketAddr.fromValue)) (fun _ => rfl)
      (observed_fromValue observed)
  | findNodeResponse nodes =>
    exact read_one .findNodeResponse (required (toList NodeInfoSerde.fromValue)) (fun _ => rfl)
      (hnodes nodes)
  | getProvidersResponse providers closer =>
    exact read_two .getProvidersResponse (required (toList NodeInfoSerde.fromValue))
      (required (toList NodeInfoSerde.fromValue)) (fun _ => rfl) (hnodes providers) (hnodes closer)
  | addProviderResponse ok =>
    exact read_one .addProviderResponse (required toFlag) (fun _ => rfl) rfl
  | getChunkResponse data =>
    exact read_one .getChunkResponse (required toBytes) (fun _ => rfl) (toBytes_ofBytes data)
  | putChunkResponse ok => exact read_one .putChunkResponse (required toFlag) (fun _ => rfl) rfl
  | relayResponse ok payload =>
    exact read_two .relayResponse (required toFlag) (required toBytes) (fun _ => rfl) rfl
      (toBytes_ofBytes payload)
  | connectResponse ok => exact read_one .connectResponse (required toFlag) (fun _ => rfl) rfl
  | error code message =>
    exact read_two .error (required toWord16) (required toStr) (fun _ => rfl) (toWord16_ofWord16 code)
      (toText_text message)

/-! ## Messages -/

theorem message_fromValue (m : Message) : Message.fromValue m.toValue = some m.onWire := by
  simp [Message.fromValue, Message.toValue, namedField, required, defaulted, toWord,
    toFixed32_ofArray32, powProof_fromValue, payload_fromValue, toBytes_ofBytes, toFlag, ofByte,
    toByte_uint, Message.onWire]

/-! ## What is lost -/

def Unscoped : SocketAddr → Prop
  | .v4 _ _ _ _ _ => True
  | .v6 _ _ flowinfo scopeId => flowinfo = 0 ∧ scopeId = 0

/-- The socket addresses in a payload. -/
def addressesOf : Payload → List SocketAddr
  | .addProviderRequest _ addrs => addrs
  | .connectRequest addrs _ _ => addrs
  | .pingResponse observed => observed.toList
  | .findNodeResponse nodes => nodes.flatMap NodeInfoSerde.addresses
  | .getProvidersResponse providers closer => (providers ++ closer).flatMap NodeInfoSerde.addresses
  | _ => []

theorem socketAddr_onWire {a : SocketAddr} (h : Unscoped a) : a.onWire = a := by
  cases a with
  | v4 a b c d port => rfl
  | v6 ip port flowinfo scopeId =>
    obtain ⟨rfl, rfl⟩ := h
    rfl

theorem map_onWire {l : List SocketAddr} (h : ∀ a ∈ l, Unscoped a) : l.map SocketAddr.onWire = l := by
  have heach : ∀ a ∈ l, a.onWire = id a := fun a ha => socketAddr_onWire (h a ha)
  rw [List.map_congr_left heach, List.map_id]

theorem nodes_onWire {l : List NodeInfoSerde} (h : ∀ a ∈ l.flatMap NodeInfoSerde.addresses, Unscoped a) :
    l.map NodeInfoSerde.onWire = l := by
  have hnode : ∀ n ∈ l, n.onWire = id n := by
    intro n hn
    have haddrs := map_onWire fun a ha => h a (List.mem_flatMap.mpr ⟨n, hn, ha⟩)
    rw [NodeInfoSerde.onWire, haddrs, id]
  rw [List.map_congr_left hnode, List.map_id]

theorem payload_onWire {p : Payload} (h : ∀ a ∈ addressesOf p, Unscoped a) : p.onWire = p := by
  cases p with
  | addProviderRequest key addrs =>
    have haddrs : addrs.map SocketAddr.onWire = addrs := map_onWire h
    rw [Payload.onWire, haddrs]
  | connectRequest addrs id key =>
    have haddrs : addrs.map SocketAddr.onWire = addrs := map_onWire h
    rw [Payload.onWire, haddrs]
  | pingResponse observed =>
    cases observed with
    | none => rfl
    | some a => rw [Payload.onWire, Option.map_some, socketAddr_onWire (h a List.mem_cons_self)]
  | findNodeResponse nodes =>
    have hnodes : nodes.map NodeInfoSerde.onWire = nodes := nodes_onWire h
    rw [Payload.onWire, hnodes]
  | getProvidersResponse providers closer =>
    rw [addressesOf, List.flatMap_append] at h
    rw [Payload.onWire, nodes_onWire fun a ha => h a (List.mem_append_left _ ha),
      nodes_onWire fun a ha => h a (List.mem_append_right _ ha)]
  | _ => rfl

/-! ## What is written again -/

theorem socketAddr_toValue (a : SocketAddr) : a.onWire.toValue = a.toValue := by cases a <;> rfl

theorem ofList_map {α : Type} {write : α → Value} {back : α → α}
    (h : ∀ x, write (back x) = write x) (l : List α) : ofList write (l.map back) = ofList write l := by
  rw [ofList, List.map_map, ofList]
  congr 1
  exact List.map_congr_left fun x _ => h x

theorem nodeInfo_toValue (n : NodeInfoSerde) : n.onWire.toValue = n.toValue := by
  have haddrs := ofList_map socketAddr_toValue n.addresses
  rw [NodeInfoSerde.toValue, NodeInfoSerde.onWire, haddrs, NodeInfoSerde.toValue]

theorem payload_toValue (p : Payload) : p.onWire.toValue = p.toValue := by
  have haddrs := ofList_map socketAddr_toValue
  have hnodes := ofList_map nodeInfo_toValue
  cases p with
  | addProviderRequest key addrs => rw [Payload.onWire, Payload.toValue, haddrs, Payload.toValue]
  | connectRequest addrs id key => rw [Payload.onWire, Payload.toValue, haddrs, Payload.toValue]
  | pingResponse observed =>
    cases observed with
    | none => rfl
    | some a => exact congrArg (fun v => fields "PingResponse" [v]) (socketAddr_toValue a)
  | findNodeResponse nodes => rw [Payload.onWire, Payload.toValue, hnodes, Payload.toValue]
  | getProvidersResponse providers closer =>
    rw [Payload.onWire, Payload.toValue, hnodes, hnodes, Payload.toValue]
  | _ => rfl

/-! ## The bytes written out

`Payload.toVec` and `Message.toVec` are the bytes of the values, unless a length has no form.
-/

theorem bytes_toVec {v : Bytes} (h : v.length < 2 ^ 32) : Wire.bytes v = MessagePack.encode (ofBytes v) := by
  rw [ofBytes, ← array_map_encode (by rwa [List.length_map]), Wire.bytes, List.map_map]
  rfl

theorem array32_toVec (v : Bytes32) : Wire.bytes v.bytes = MessagePack.encode (ofArray32 v) :=
  bytes_toVec (by rw [v.len]; decide)

theorem ofList_toVec {α : Type} {write : α → Value} {vec : α → Bytes} {l : List α}
    (hlen : l.length < 2 ^ 32) (h : ∀ x ∈ l, vec x = MessagePack.encode (write x)) :
    array (l.map vec) = MessagePack.encode (ofList write l) := by
  rw [ofList, ← array_map_encode (by rwa [List.length_map]), List.map_map, List.map_congr_left h]
  rfl

theorem fields_toVec {name : String} {vecs : List Bytes} {fs : List Value}
    (hname : (text name).length < 2 ^ 32) (hlen : fs.length < 2 ^ 32)
    (h : vecs = fs.map MessagePack.encode) :
    single name (array vecs) = MessagePack.encode (fields name fs) := by
  rw [h, array_map_encode hlen, single_eq hname]
  rfl

section

variable {name : String} {x y z : Bytes} {w w' w'' : Value} (hname : (text name).length < 2 ^ 32)
include hname

theorem write_one (hx : x = MessagePack.encode w) :
    single name (array [x]) = MessagePack.encode (fields name [w]) :=
  fields_toVec hname (by simp) (by rw [hx]; rfl)

theorem write_two (hx : x = MessagePack.encode w) (hy : y = MessagePack.encode w') :
    single name (array [x, y]) = MessagePack.encode (fields name [w, w']) :=
  fields_toVec hname (by simp) (by rw [hx, hy]; rfl)

theorem write_three (hx : x = MessagePack.encode w) (hy : y = MessagePack.encode w')
    (hz : z = MessagePack.encode w'') :
    single name (array [x, y, z]) = MessagePack.encode (fields name [w, w', w'']) :=
  fields_toVec hname (by simp) (by rw [hx, hy, hz]; rfl)

end

theorem socketAddr_toVec (a : SocketAddr) : Wire.socketAddr a = MessagePack.encode a.toValue := by
  cases a with
  | v4 a b c d port => exact write_two (by decide) (bytes_toVec (by simp)) rfl
  | v6 ip port flowinfo scopeId =>
    have hlen : ip.octets.length < 2 ^ 32 := by
      rw [length_octets]
      decide
    exact write_two (by decide) (bytes_toVec hlen) rfl

theorem addresses_toVec {l : List SocketAddr} (h : l.length < 2 ^ 32) :
    Wire.addresses l = MessagePack.encode (ofList SocketAddr.toValue l) :=
  ofList_toVec h fun a _ => socketAddr_toVec a

theorem nodeInfo_toVec {n : NodeInfoSerde} (h : n.addresses.length < 2 ^ 32) :
    Wire.nodeInfo n = MessagePack.encode n.toValue := by
  rw [NodeInfoSerde.toValue, ← array_map_encode (by simp), Wire.nodeInfo, array32_toVec, array32_toVec,
    addresses_toVec h]
  rfl

theorem nodes_toVec {l : List NodeInfoSerde} (hlen : l.length < 2 ^ 32)
    (h : ∀ n ∈ l, n.addresses.length < 2 ^ 32) :
    Wire.nodes l = MessagePack.encode (ofList NodeInfoSerde.toValue l) :=
  ofList_toVec hlen fun n hn => nodeInfo_toVec (h n hn)

/-- The lengths that the format must have a form for. -/
def lengthsOf : Payload → List Nat
  | .addProviderRequest _ addrs => [addrs.length]
  | .putChunkRequest _ data => [data.length]
  | .relayRequest _ payload _ => [payload.length]
  | .connectRequest addrs _ _ => [addrs.length]
  | .findNodeResponse nodes => nodes.length :: nodes.map fun n => n.addresses.length
  | .getProvidersResponse providers closer =>
    providers.length :: closer.length :: (providers ++ closer).map fun n => n.addresses.length
  | .getChunkResponse data => [data.length]
  | .relayResponse _ payload => [payload.length]
  | .error _ message => [(text message).length]
  | _ => []

theorem payload_toVec {p : Payload} (h : ∀ n ∈ lengthsOf p, n < 2 ^ 32) :
    p.toVec = MessagePack.encode p.toValue := by
  cases p with
  | pingRequest => exact str_eq (by decide)
  | findNodeRequest target => exact write_one (by decide) (array32_toVec target)
  | getProvidersRequest key => exact write_one (by decide) (array32_toVec key)
  | addProviderRequest key addrs =>
    exact write_two (by decide) (array32_toVec key) (addresses_toVec (h _ List.mem_cons_self))
  | getChunkRequest hash => exact write_one (by decide) (array32_toVec hash)
  | putChunkRequest hash data =>
    exact write_two (by decide) (array32_toVec hash) (bytes_toVec (h _ List.mem_cons_self))
  | relayRequest targetId payload hops =>
    exact write_three (by decide) (array32_toVec targetId) (bytes_toVec (h _ List.mem_cons_self)) rfl
  | connectRequest addrs id key =>
    exact write_three (by decide) (addresses_toVec (h _ List.mem_cons_self)) (array32_toVec id)
      (array32_toVec key)
  | pingResponse observed =>
    cases observed with
    | none => exact write_one (by decide) rfl
    | some a => exact write_one (by decide) (socketAddr_toVec a)
  | findNodeResponse nodes =>
    have hnodes : ∀ n ∈ nodes, n.addresses.length < 2 ^ 32 := fun n hn =>
      h _ (List.mem_cons_of_mem _ (List.mem_map_of_mem hn))
    exact write_one (by decide) (nodes_toVec (h _ List.mem_cons_self) hnodes)
  | getProvidersResponse providers closer =>
    have hnodes : ∀ n ∈ providers ++ closer, n.addresses.length < 2 ^ 32 := fun n hn =>
      h _ (List.mem_cons_of_mem _ (List.mem_cons_of_mem _ (List.mem_map_of_mem hn)))
    exact write_two (by decide)
      (nodes_toVec (h _ List.mem_cons_self) fun n hn => hnodes n (List.mem_append_left _ hn))
      (nodes_toVec (h _ (List.mem_cons_of_mem _ List.mem_cons_self)) fun n hn =>
        hnodes n (List.mem_append_right _ hn))
  | addProviderResponse ok => exact write_one (by decide) rfl
  | getChunkResponse data => exact write_one (by decide) (bytes_toVec (h _ List.mem_cons_self))
  | putChunkResponse ok => exact write_one (by decide) rfl
  | relayResponse ok payload =>
    exact write_two (by decide) rfl (bytes_toVec (h _ List.mem_cons_self))
  | connectResponse ok => exact write_one (by decide) rfl
  | error code message => exact write_two (by decide) rfl (str_eq (h _ List.mem_cons_self))

theorem message_toVec {m : Message} (h : ∀ n ∈ m.signature.length :: lengthsOf m.payload, n < 2 ^ 32) :
    m.toVec = MessagePack.encode m.toValue := by
  have hsignature := bytes_toVec (h _ List.mem_cons_self)
  have hpayload := payload_toVec fun n hn => h n (List.mem_cons_of_mem _ hn)
  have hpow : array [uint m.powProof.nonce.toNat, uint m.powProof.difficulty.toNat] =
      MessagePack.encode m.powProof.toValue := by
    rw [PowProof.toValue, ← array_map_encode (by simp)]
    rfl
  rw [Message.toValue, ← array_map_encode (by simp), Message.toVec, array32_toVec, array32_toVec, hpow,
    hpayload, hsignature]
  rfl

/-! ## Bytes -/

section

variable {S : Serde}

/-- A message is read back without what is lost. -/
theorem fromBytes_toVec (hS : ∀ v, S.decode (S.encode v) = .ok v) (m : Message) :
    S.fromBytes (S.toVec m) = .ok m.onWire := by
  rw [Serde.fromBytes, Serde.fromSlice, toVec, hS]
  dsimp only
  rw [message_fromValue]

/-- The signature is checked over bytes that do not change. -/
theorem verifySignature_onWire (others : Crates) (m : Message) :
    m.onWire.verifySignature (S.messageCrates others) = m.verifySignature (S.messageCrates others) := by
  have hbytes : m.onWire.signingBytes (S.messageCrates others) = m.signingBytes (S.messageCrates others) := by
    unfold Message.signingBytes messageCrates
    dsimp only
    rw [Message.onWire, payload_toValue]
  unfold Message.verifySignature
  rw [hbytes]
  rfl

end

/-- What is read back is the message if its IPv6 addresses have no flow info and no scope. Read back,
written and read back again, a message with a valid signature has one still. -/
theorem messages_come_back (S : Serde) (hS : ∀ v, S.decode (S.encode v) = .ok v) :
    (∀ m : Message, (∀ a ∈ addressesOf m.payload, Unscoped a) → S.fromBytes (S.toVec m) = .ok m) ∧
    ∀ (others : Crates) (m : Message), m.verifySignature (S.messageCrates others) = true →
      ∃ m' m'', S.fromBytes (S.toVec m) = .ok m' ∧ S.fromBytes (S.toVec m') = .ok m'' ∧
        m''.verifySignature (S.messageCrates others) = true := by
  refine ⟨fun m hscope => ?_, fun others m hvalid => ?_⟩
  · rw [fromBytes_toVec hS, Message.onWire, payload_onWire hscope]
  · refine ⟨m.onWire, m.onWire.onWire, fromBytes_toVec hS m, fromBytes_toVec hS m.onWire, ?_⟩
    rw [verifySignature_onWire, verifySignature_onWire]
    exact hvalid

def linkLocal (flowinfo scopeId : UInt32) : SocketAddr :=
  .v6 ⟨[0xfe80, 0, 0, 0, 0, 0, 0, 1], by decide⟩ 4433 flowinfo scopeId

def announce (addr : SocketAddr) : Message :=
  { Message.new 7 (Bytes32.fill 1) (Bytes32.fill 2) ⟨3, 16⟩
      (.addProviderRequest (Bytes32.fill 4) [.v4 10 0 0 1 4433, addr]) with
    signature := List.replicate 64 9 }

/-- The crates for that announcement alone. -/
def announceCrates : Crates :=
  Crates.knowing [⟨Bytes32.fill 5, Bytes32.fill 2, [(bigEndian 8 7 ++ (Bytes32.fill 1).bytes ++
    Tokens.crates.encode (announce (linkLocal 1 2)).payload.toValue, List.replicate 64 9)]⟩] []

theorem messages_come_back_announce :
    Tokens.crates.fromBytes (Tokens.crates.toVec (announce (linkLocal 0 0))) =
      .ok (announce (linkLocal 0 0)) ∧
    ∃ m' m'', Tokens.crates.fromBytes (Tokens.crates.toVec (announce (linkLocal 1 2))) = .ok m' ∧
      Tokens.crates.fromBytes (Tokens.crates.toVec m') = .ok m'' ∧
      m''.verifySignature (Tokens.crates.messageCrates announceCrates) = true := by
  have hback := messages_come_back Tokens.crates crates_faithful.value
  have hunscoped : ∀ a ∈ addressesOf (announce (linkLocal 0 0)).payload, Unscoped a := by
    intro a ha
    simp only [announce, Message.new, addressesOf, List.mem_cons, List.not_mem_nil, or_false] at ha
    rcases ha with rfl | rfl
    · trivial
    · exact ⟨rfl, rfl⟩
  exact ⟨hback.1 _ hunscoped, hback.2 announceCrates _ (by decide +kernel)⟩

end TesserasDht.Messages
