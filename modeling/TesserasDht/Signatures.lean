import TesserasDht.Admission

/-!
# Signed messages

The signature is over `msg_id`, `sender_id` and the payload. The proof of work, `client_mode` and the
protocol version are not signed.
-/

open Lib.Formats

namespace TesserasDht.Signatures

/-- A signature fits the bytes that were signed and no others, and the bytes of a payload are those
of no other payload. -/
structure Ideal (crates : Crates) : Prop where
  verify : ∀ secret bytes bytes',
    crates.verify (crates.publicKey secret) bytes' (crates.sign secret bytes) = true → bytes' = bytes
  payload : ∀ p q bytes, crates.encodePayload p = some bytes → crates.encodePayload q = some bytes →
    p = q

section

variable {crates : Crates}

/-- The three parts have fixed lengths, but for the last. -/
theorem signingBytes_inj (hideal : Ideal crates) {m m' : Message} {bytes : Bytes}
    (h : m.signingBytes crates = some bytes) (h' : m'.signingBytes crates = some bytes) :
    m'.msgId = m.msgId ∧ m'.senderId = m.senderId ∧ m'.payload = m.payload := by
  obtain ⟨part, hpart, rfl⟩ := Option.map_eq_some_iff.mp h
  obtain ⟨part', hpart', heq⟩ := Option.map_eq_some_iff.mp h'
  obtain ⟨hfront, rfl⟩ := List.append_inj heq
    (by simp only [List.length_append, length_bigEndian, Bytes32.len])
  obtain ⟨hid, hsender⟩ := List.append_inj hfront (by simp only [length_bigEndian])
  refine ⟨?_, ?_, hideal.payload _ _ _ hpart' hpart⟩
  · apply UInt64.toNat_inj.mp
    exact bigEndian_inj (m'.msgId.toNat_lt) (m.msgId.toNat_lt) hid
  · cases hm' : m'.senderId
    cases hm : m.senderId
    simp_all

theorem verifySignature_bytes {m : Message} (h : m.verifySignature crates = true) :
    m.signature.length = 64 ∧ ∃ bytes, m.signingBytes crates = some bytes ∧
      crates.verify m.senderKey bytes m.signature = true := by
  unfold Message.verifySignature at h
  split_ifs at h with hlen hkey
  refine ⟨not_not.mp hlen, ?_⟩
  split at h
  next bytes hbytes => exact ⟨bytes, hbytes, h⟩
  next => cases h

theorem sign_signature {secret : Bytes32} {m : Message} (hunsigned : m.signature = [])
    (hlen : (m.sign crates secret).signature.length = 64) :
    ∃ bytes, m.signingBytes crates = some bytes ∧
      m.sign crates secret = { m with signature := crates.sign secret bytes } := by
  unfold Message.sign at hlen ⊢
  split at hlen
  next bytes hbytes => exact ⟨bytes, hbytes, rfl⟩
  next =>
    rw [hunsigned] at hlen
    cases hlen

end

/-- A message that is taken in with the signature and the key of a message that was signed is that
message, but for the fields that are not signed. Its sender and its answer are handled alike. -/
theorem signed_fields_agree (ctx : HandlerContext) (hideal : Ideal ctx.crates) (secret : Bytes32)
    (m m' : Message) (hunsigned : m.signature = []) (hkey : m.senderKey = ctx.crates.publicKey secret)
    (hsignature : m'.signature = (m.sign ctx.crates secret).signature)
    (hkey' : m'.senderKey = m.senderKey) (hpass : ctx.rejection m' = none) :
    m' = { m.sign ctx.crates secret with
      powProof := m'.powProof, clientMode := m'.clientMode, protocolVersion } ∧
    ∀ fromAddr, ctx.answer fromAddr m' = ctx.answer fromAddr (m.sign ctx.crates secret) ∧
      ctx.insertSender fromAddr m' = ctx.insertSender fromAddr (m.sign ctx.crates secret) := by
  have hadmissible := (Admission.rejection_eq_none_iff ctx m').mp hpass
  obtain ⟨hlen, bytes', hbytes', hverify⟩ := verifySignature_bytes hadmissible.signature
  rw [hsignature] at hlen hverify
  obtain ⟨bytes, hbytes, hsign⟩ := sign_signature hunsigned hlen
  rw [hkey', hkey, hsign] at hverify
  obtain rfl := hideal.verify _ _ _ hverify
  obtain ⟨hid, hsender, hpayload⟩ := signingBytes_inj hideal hbytes hbytes'
  have heq : m' = { m.sign ctx.crates secret with
      powProof := m'.powProof, clientMode := m'.clientMode, protocolVersion } := by
    rw [hsign] at hsignature ⊢
    have hversion := hadmissible.version
    cases m'
    simp_all
  refine ⟨heq, fun fromAddr => ?_⟩
  rw [heq]
  exact ⟨rfl, rfl⟩

/-! ## A message that is altered -/

/-- The request to store a chunk before it is signed. -/
def unsignedSeven : Message := { Admission.putSeven with signature := [] }

/-- The crates for that request alone. -/
def oneCrates : Crates := { Admission.putCrates with
  encodePayload := fun p => if p = unsignedSeven.payload then some p.toVec else none }

theorem oneCrates_sign {secret : Bytes32} {bytes : Bytes}
    (h : oneCrates.sign secret bytes = Admission.putSeven.signature) :
    bytes = (Admission.signedPart Admission.putSeven).1 := by
  by_contra hne
  have hnone : oneCrates.sign secret bytes = [] := by
    simp only [oneCrates, Admission.putCrates, Crates.knowing, List.find?_cons, List.find?_nil]
    split
    · simp [List.lookup, beq_false_of_ne hne]
    · split
      · rfl
      · rfl
  rw [hnone] at h
  cases h

theorem oneCrates_ideal : Ideal oneCrates where
  verify secret bytes bytes' h := by
    simp only [oneCrates, Admission.putCrates, Crates.knowing, List.any_cons, List.any_nil,
      Bool.or_false, Bool.or_eq_true, decide_eq_true_eq, List.mem_singleton, List.not_mem_nil,
      and_false, or_false] at h
    obtain ⟨hbytes', hsignature⟩ := Prod.mk.inj h.2
    rw [hbytes', oneCrates_sign hsignature, Admission.signedPart]
  payload p q bytes hp hq := by
    simp only [oneCrates, Option.ite_none_right_eq_some] at hp hq
    rw [hp.1, hq.1]

theorem unsignedSeven_sign : unsignedSeven.sign oneCrates (Bytes32.fill 1) = Admission.putSeven := by
  decide +kernel

/-- The request as one of a client is answered as the request is. -/
theorem signed_fields_agree_put :
    (Admission.contextWith oneCrates).rejection { Admission.putSeven with clientMode := true } = none ∧
    ∀ fromAddr, (Admission.contextWith oneCrates).answer fromAddr
        { Admission.putSeven with clientMode := true } =
      (Admission.contextWith oneCrates).answer fromAddr
        (unsignedSeven.sign oneCrates (Bytes32.fill 1)) := by
  have hpass : (Admission.contextWith oneCrates).rejection
      { Admission.putSeven with clientMode := true } = none := by decide +kernel
  have hsignature : ({ Admission.putSeven with clientMode := true } : Message).signature =
      (unsignedSeven.sign oneCrates (Bytes32.fill 1)).signature := by rw [unsignedSeven_sign]
  refine ⟨hpass, fun fromAddr => ?_⟩
  exact ((signed_fields_agree (Admission.contextWith oneCrates) oneCrates_ideal (Bytes32.fill 1)
    unsignedSeven _ rfl (by decide +kernel) hsignature rfl hpass).2 fromAddr).1

/-- The same message as one of a client. It has the signature, passes every check, and its sender is
not put into the routing table. -/
theorem client_mode_alters :
    let m := unsignedSeven.sign oneCrates (Bytes32.fill 1)
    let m' := { m with clientMode := true }
    let ctx := Admission.contextWith oneCrates
    let table (m : Message) := (Admission.handled ctx (fun _ => Admission.quietInput)
      (fun _ => Admission.quietInput) (.v4 127 0 0 1 4434) m Admission.freshState).routingTable
    Ideal ctx.crates ∧ m.senderKey = ctx.crates.publicKey (Bytes32.fill 1) ∧
      ctx.rejection m = none ∧ ctx.rejection m' = none ∧ m'.clientMode ≠ m.clientMode ∧
      (table m).allNodesSerde.length = 1 ∧ (table m').allNodesSerde.length = 0 := by
  refine ⟨oneCrates_ideal, ?_, ?_, ?_, ?_, ?_, ?_⟩ <;> decide +kernel

end TesserasDht.Signatures
