import TesserasDht.Messages
import TesserasDht.Signatures

/-!
# Messages of older nodes

`relay_hops` and `observed_addr` have a default, so that a message without them is read. The signature is
then checked over a payload that has them.
-/

open Lib Lib.Formats Lib.MessagePack

namespace TesserasDht.DefaultedFields

open Serde Tokens Messages

/-! ## What an older node sends -/

/-- The payloads of a node that does not know the last field. -/
inductive OlderPayload
  | relayRequest (targetId : Bytes32) (payload : Bytes)
  | pingResponse

def OlderPayload.toValue : OlderPayload → Value
  | .relayRequest targetId payload => fields "RelayRequest" [ofArray32 targetId, ofBytes payload]
  | .pingResponse => fields "PingResponse" []

def OlderPayload.filled : OlderPayload → Payload
  | .relayRequest targetId payload => .relayRequest targetId payload 0
  | .pingResponse => .pingResponse none

structure OlderMessage where
  msgId : UInt64
  senderId : Bytes32
  senderKey : Bytes32
  powProof : PowProof
  payload : OlderPayload
  signature : Bytes
  clientMode : Bool
  protocolVersion : UInt8

namespace OlderMessage

def toValue (m : OlderMessage) : Value :=
  .array [.uint m.msgId, ofArray32 m.senderId, ofArray32 m.senderKey, m.powProof.toValue,
    m.payload.toValue, ofBytes m.signature, .bool m.clientMode, ofByte m.protocolVersion]

/-- The older node signs the payload as it writes it. -/
def signedBytes (S : Serde) (m : OlderMessage) : Bytes :=
  bigEndian 8 m.msgId.toNat ++ m.senderId.bytes ++ S.encode m.payload.toValue

def filled (m : OlderMessage) : Message :=
  { m with payload := m.payload.filled }

end OlderMessage

/-! ## What is read -/

theorem payload_filled (p : OlderPayload) : Payload.fromValue p.toValue = some p.filled := by
  cases p with
  | relayRequest targetId payload =>
    rw [OlderPayload.toValue, fromValue_fields]
    simp [Payload.fromContent, namedField, required, defaulted, toFixed32_ofArray32, toBytes_ofBytes,
      OlderPayload.filled]
  | pingResponse =>
    rw [OlderPayload.toValue, fromValue_fields]
    rfl

theorem message_filled (m : OlderMessage) : Message.fromValue m.toValue = some m.filled := by
  simp [Message.fromValue, OlderMessage.toValue, namedField, required, defaulted, toWord, toFixed32_ofArray32,
    powProof_fromValue, payload_filled, toBytes_ofBytes, toFlag, ofByte, toByte_uint, OlderMessage.filled]

/-- The default is written like any other value. -/
theorem payload_rewritten (p : OlderPayload) : p.filled.toValue ≠ p.toValue := by
  cases p with
  | relayRequest targetId payload =>
    intro h
    simp [OlderPayload.filled, OlderPayload.toValue, Payload.toValue, fields, variant] at h
  | pingResponse =>
    intro h
    simp [OlderPayload.filled, OlderPayload.toValue, Payload.toValue, fields, variant] at h

section

variable {S : Serde} (hS : ∀ v, S.decode (S.encode v) = .ok v) (others : Crates) (m : OlderMessage)
include hS

theorem fromBytes_older : S.fromBytes (S.encode m.toValue) = .ok m.filled := by
  rw [Serde.fromBytes, Serde.fromSlice, hS]
  dsimp only
  rw [message_filled]

theorem signingBytes_ne : m.filled.signingBytes (S.messageCrates others) ≠ some (m.signedBytes S) := by
  intro h
  have hsame : S.encode m.payload.filled.toValue = S.encode m.payload.toValue :=
    List.append_cancel_left (Option.some.inj h)
  refine payload_rewritten m.payload ?_
  have hdecode := (hS m.payload.filled.toValue).symm.trans ((congrArg S.decode hsame).trans (hS m.payload.toValue))
  exact Except.ok.inj hdecode

end

/-- Whatever an older node sends and signs without the last field: the message is read, the bytes that are
checked are not those that were signed, and the signature is refused. -/
theorem older_never_verifies (S : Serde) (hS : ∀ v, S.decode (S.encode v) = .ok v) (others : Crates)
    (hverify : ∀ secret bytes bytes', others.verify (others.publicKey secret) bytes' (others.sign secret bytes) = true →
      bytes' = bytes)
    (secret : Bytes32) (m : OlderMessage) (hkey : m.senderKey = others.publicKey secret)
    (hsignature : m.signature = others.sign secret (m.signedBytes S)) :
    ∃ m', S.fromBytes (S.encode m.toValue) = .ok m' ∧
      m'.signingBytes (S.messageCrates others) ≠ some (m.signedBytes S) ∧
      m'.verifySignature (S.messageCrates others) = false := by
  have hne := signingBytes_ne hS others m
  refine ⟨m.filled, fromBytes_older hS m, hne, ?_⟩
  by_contra htrue
  obtain ⟨-, bytes, hbytes, hvalid⟩ := Signatures.verifySignature_bytes (Bool.eq_true_of_not_eq_false htrue)
  rw [hbytes] at hne
  refine hne (congrArg some (hverify secret _ _ ?_))
  rw [← hkey, ← hsignature]
  exact hvalid

/-! ## A ping -/

/-- The answer of an older node to a ping. -/
def olderPong : OlderMessage where
  msgId := 7
  senderId := Bytes32.fill 1
  senderKey := Bytes32.fill 2
  powProof := ⟨3, 16⟩
  payload := .pingResponse
  signature := List.replicate 64 9
  clientMode := false
  protocolVersion := 1

/-- The crates for that answer alone. -/
def olderCrates : Crates :=
  Crates.knowing [⟨Bytes32.fill 5, Bytes32.fill 2, [(olderPong.signedBytes Tokens.crates, List.replicate 64 9)]⟩] []

theorem knowing_verify {secret key : Bytes32} {signed signature : Bytes} (hne : signature ≠ [])
    (secret' : Bytes32) (bytes bytes' : Bytes)
    (h : (Crates.knowing [⟨secret, key, [(signed, signature)]⟩] []).verify
      ((Crates.knowing [⟨secret, key, [(signed, signature)]⟩] []).publicKey secret') bytes'
      ((Crates.knowing [⟨secret, key, [(signed, signature)]⟩] []).sign secret' bytes) = true) : bytes' = bytes := by
  simp only [Crates.knowing, List.any_cons, List.any_nil, Bool.or_false, decide_eq_true_eq, List.mem_singleton,
    List.find?_cons, List.find?_nil] at h
  obtain ⟨hbytes', hsignature⟩ := Prod.mk.inj h.2
  rw [hbytes']
  split at hsignature
  · by_contra hother
    rw [Option.bind_some, List.lookup_cons, beq_false_of_ne (Ne.symm hother)] at hsignature
    exact hne hsignature.symm
  · exact absurd hsignature.symm hne

theorem older_never_verifies_pong :
    ∃ m', Tokens.crates.fromBytes (Tokens.crates.encode olderPong.toValue) = .ok m' ∧
      m'.signingBytes (Tokens.crates.messageCrates olderCrates) ≠ some (olderPong.signedBytes Tokens.crates) ∧
      m'.verifySignature (Tokens.crates.messageCrates olderCrates) = false :=
  older_never_verifies Tokens.crates crates_faithful.value olderCrates (knowing_verify (by decide)) (Bytes32.fill 5)
    olderPong (by decide +kernel) (by decide +kernel)

/-- The answer is read, and its signature is refused although it fits what was signed. -/
theorem older_pong_is_refused :
    olderPong.signature = olderCrates.sign (Bytes32.fill 5) (olderPong.signedBytes Tokens.crates) ∧
    olderCrates.validKey olderPong.senderKey = true ∧
    olderCrates.verify olderPong.senderKey (olderPong.signedBytes Tokens.crates) olderPong.signature = true ∧
    ∃ m', Tokens.crates.fromBytes (Tokens.crates.encode olderPong.toValue) = .ok m' ∧
      m'.verifySignature (Tokens.crates.messageCrates olderCrates) = false :=
  ⟨by decide +kernel, by decide +kernel, by decide +kernel, _, fromBytes_older crates_faithful.value olderPong,
    by decide +kernel⟩

end TesserasDht.DefaultedFields
