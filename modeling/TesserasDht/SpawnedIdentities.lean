import TesserasDht.Admission
import TesserasDht.Code.Identity
import TesserasDht.Frames
import TesserasDht.Lib.Runs
import TesserasDht.Messages
import TesserasDht.Tokens

/-!
# A node keeps its identity

What was saved once is loaded by every later spawn, and what a node with that identity signs and sends
passes the checks of every node that asks for no more work than was done.
-/

open Lib.Runs Lib.Tasks Lib.Formats

namespace TesserasDht.SpawnedIdentities

open Admission

/-! ## The search for a proof -/

section

variable {sha256 : Bytes → Hash} {publicKey : Bytes32} {difficulty : UInt8} {rounds : Nat} {nonce : UInt64}
  {p : PowProof}

theorem generateFrom_spec (h : PowProof.generateFrom sha256 publicKey difficulty rounds nonce = some p) :
    p.difficulty = difficulty ∧ verifyPowHash sha256 publicKey p.nonce p.difficulty = true := by
  induction rounds generalizing nonce with
  | zero => cases h
  | succ rounds ih =>
    rw [PowProof.generateFrom] at h
    split_ifs at h with hfound
    · cases h
      exact ⟨rfl, hfound⟩
    · exact ih h

end

/-! ## The table -/

/-- A nonce goes through an `i64` and a difficulty through an `i32`, and both come back. -/
theorem load_save (id : Identity) : loadIdentity (some (saveIdentity id)) = .ok (some id) := by
  unfold loadIdentity saveIdentity
  dsimp only
  rw [toArray32_bytes]
  simp

variable (crates : Crates)

/-- The table after some spawns on a new data directory. -/
def table (spawns : List SpawnInput) : Option IdentityRow :=
  run (fun row i => (spawnIdentity crates i row).2) none spawns

/-- Each spawn with the identity that its node has. -/
def identities : Option IdentityRow → List SpawnInput →
    List (SpawnInput × Except LoadPanic (Option Identity))
  | _, [] => []
  | row, i :: rest => (i, (spawnIdentity crates i row).1) :: identities (spawnIdentity crates i row).2 rest

/-- The identity was made by one of the spawns, with the difficulty that its builder had. -/
def MadeBy (spawns : List SpawnInput) (id : Identity) : Prop :=
  ∃ i ∈ spawns, id.secret = i.secret ∧ id.pow.difficulty = i.powDifficulty ∧
    verifyPowHash crates.sha256 (crates.publicKey id.secret) id.pow.nonce id.pow.difficulty = true

def Saved (spawns : List SpawnInput) (row : Option IdentityRow) : Prop :=
  ∀ r ∈ row, ∃ id, r = saveIdentity id ∧ MadeBy crates spawns id

section

variable {crates} {spawns : List SpawnInput} {row : Option IdentityRow} {i : SpawnInput}

theorem Saved.append (h : Saved crates spawns row) (i : SpawnInput) : Saved crates (spawns ++ [i]) row := by
  intro r hr
  obtain ⟨id, hrow, j, hj, hmade⟩ := h r hr
  exact ⟨id, hrow, j, List.mem_append_left _ hj, hmade⟩

theorem generateIdentity_saved (h : Saved crates spawns row) (i : SpawnInput) :
    Saved crates (spawns ++ [i]) (generateIdentity crates i row).2 := by
  unfold generateIdentity
  split
  · exact h.append i
  next pow hpow =>
    dsimp only
    split_ifs
    · exact h.append i
    · rintro _ ⟨⟩
      obtain ⟨hdifficulty, hverify⟩ := generateFrom_spec hpow
      exact ⟨_, rfl, i, List.mem_append_right _ (List.mem_singleton_self i), rfl, hdifficulty, hverify⟩

theorem spawn_saved (h : Saved crates spawns row) (i : SpawnInput) :
    Saved crates (spawns ++ [i]) (spawnIdentity crates i row).2 := by
  unfold spawnIdentity
  split
  · exact h.append i
  · dsimp only
    split_ifs
    · exact generateIdentity_saved h i
    · split
      · exact h.append i
      · exact h.append i
      · exact generateIdentity_saved h i

theorem table_saved (spawns : List SpawnInput) : Saved crates spawns (table crates spawns) := by
  have hempty : Saved crates [] none := by rintro _ ⟨⟩
  have hrun := run_history (I := Saved crates) (fun before row i h _ => spawn_saved h i) hempty
    (meets_of_forall (fun _ _ => trivial) none spawns)
  rwa [List.nil_append] at hrun

/-- A saved identity is loaded, unless the builder has one or the database fails. -/
theorem spawn_loads {id : Identity} (hload : i.loadFails = false) :
    (spawnIdentity crates i (some (saveIdentity id))).2 = some (saveIdentity id) ∧
      (i.keypair = none → (spawnIdentity crates i (some (saveIdentity id))).1 = .ok (some id)) := by
  unfold spawnIdentity
  cases hkeypair : i.keypair with
  | some given => exact ⟨rfl, by rintro ⟨⟩⟩
  | none =>
    dsimp only
    rw [hload, if_neg Bool.false_ne_true, load_save]
    exact ⟨rfl, fun _ => rfl⟩

theorem spawns_load {id : Identity} (hload : ∀ i ∈ spawns, i.loadFails = false) :
    run (fun row i => (spawnIdentity crates i row).2) (some (saveIdentity id)) spawns = some (saveIdentity id) ∧
      ∀ x ∈ identities crates (some (saveIdentity id)) spawns, x.1.keypair = none → x.2 = .ok (some id) := by
  induction spawns with
  | nil => exact ⟨rfl, by rintro _ ⟨⟩⟩
  | cons i rest ih =>
    obtain ⟨htable, hidentity⟩ := @spawn_loads crates i id (hload i List.mem_cons_self)
    obtain ⟨hrest, hrests⟩ := ih fun j hj => hload j (List.mem_cons_of_mem _ hj)
    rw [run_cons, identities, htable]
    refine ⟨hrest, fun x hx => ?_⟩
    rcases List.mem_cons.mp hx with rfl | hx
    · exact hidentity
    · exact hrests x hx

end

/-! ## What the node signs -/

/-- The documented behaviour of the signatures. -/
structure Documented (crates : Crates) : Prop where
  validKey : ∀ secret, crates.validKey (crates.publicKey secret) = true
  length : ∀ secret msg, (crates.sign secret msg).length = 64
  verify : ∀ secret msg, crates.verify (crates.publicKey secret) msg (crates.sign secret msg) = true

/-- A node with the identity signed the message. -/
def SignedBy (crates : Crates) (id : Identity) (msg : Message) : Prop :=
  ∃ m : Message, m.senderKey = crates.publicKey id.secret ∧
    m.senderId = crates.sha256 (crates.publicKey id.secret).bytes ∧ m.powProof = id.pow ∧
    m.protocolVersion = protocolVersion ∧ msg = m.sign crates id.secret

section

variable {crates} {id : Identity} {ctx : HandlerContext} (hcrates : ctx.crates = crates)
  (hsecret : ctx.secret = id.secret) (hpow : ctx.pow = id.pow)

include hcrates hsecret hpow

/-- The requests of a node are its own, whatever the random number is. -/
theorem ownMessage_signedBy (clientMode : Bool) (payload : Payload) :
    Ensures (SignedBy crates id) (ctx.ownMessage clientMode payload) := by
  intro msgId
  refine ⟨{ Message.new msgId ctx.nodeId.asBytes ctx.publicKey ctx.pow payload with clientMode }, ?_, ?_, hpow,
    rfl, ?_⟩
  · rw [← hcrates, ← hsecret]
    rfl
  · rw [← hcrates, ← hsecret]
    rfl
  · rw [← hcrates, ← hsecret]

theorem response_signedBy (request : Message) (payload : Payload) :
    SignedBy crates id ((request.response ctx.nodeId.asBytes ctx.publicKey ctx.pow payload).sign ctx.crates
      ctx.secret) := by
  refine ⟨request.response ctx.nodeId.asBytes ctx.publicKey ctx.pow payload, ?_, ?_, hpow, rfl, ?_⟩
  · rw [← hcrates, ← hsecret]
    rfl
  · rw [← hcrates, ← hsecret]
    rfl
  · rw [← hcrates, ← hsecret]

end

/-! ## What other nodes make of it -/

section

variable {S : Serde} {others : Crates} {id : Identity} {msg : Message}

theorem sign_eq (S : Serde) (others : Crates) (secret : Bytes32) (m : Message) :
    ∃ bytes, m.signingBytes (S.messageCrates others) = some bytes ∧
      m.sign (S.messageCrates others) secret = { m with signature := others.sign secret bytes } := by
  refine ⟨bigEndian 8 m.msgId.toNat ++ m.senderId.bytes ++ S.encode m.payload.toValue, rfl, rfl⟩

theorem signedBy_verifies (hothers : Documented others) (hmsg : SignedBy (S.messageCrates others) id msg) :
    msg.verifySignature (S.messageCrates others) = true := by
  obtain ⟨m, hkey, -, -, -, rfl⟩ := hmsg
  obtain ⟨bytes, hbytes, hsign⟩ := sign_eq S others id.secret m
  rw [hsign]
  have hsigned : ({ m with signature := others.sign id.secret bytes } : Message).signingBytes
      (S.messageCrates others) = some bytes := hbytes
  unfold Message.verifySignature
  rw [hsigned]
  have hvalid : (S.messageCrates others).validKey m.senderKey = true := by
    rw [hkey]
    exact hothers.validKey id.secret
  rw [if_neg (not_not.mpr (hothers.length id.secret bytes)), if_neg (by simp [hvalid])]
  dsimp only
  rw [hkey]
  exact hothers.verify id.secret bytes

/-- The only check that depends on the receiver is the one on the difficulty. -/
theorem signedBy_accepted (hothers : Documented others) (hmsg : SignedBy (S.messageCrates others) id msg)
    (hwork : verifyPowHash others.sha256 (others.publicKey id.secret) id.pow.nonce id.pow.difficulty = true)
    {peer : HandlerContext} (hpeer : peer.crates = S.messageCrates others) :
    peer.rejection msg.onWire = none ↔ peer.config.minPowDifficulty ≤ id.pow.difficulty := by
  have hverifies := signedBy_verifies hothers hmsg
  obtain ⟨m, hkey, hid, hpow, hversion, rfl⟩ := hmsg
  obtain ⟨bytes, -, hsign⟩ := sign_eq S others id.secret m
  have hfields : (m.sign (S.messageCrates others) id.secret).onWire.powProof = id.pow := by
    rw [hsign]
    exact hpow
  rw [rejection_eq_none_iff]
  constructor
  · intro h
    have hdifficulty := h.difficulty
    rwa [hfields] at hdifficulty
  · intro h
    constructor
    · rw [hpeer, hsign]
      exact (congrArg _ hkey).trans (hothers.validKey id.secret)
    · rw [hpeer, hsign]
      exact hid.trans (congrArg (fun key : Bytes32 => others.sha256 key.bytes) hkey.symm)
    · rw [hfields]
      exact h
    · rw [hfields, hpeer, hsign]
      have hbits := of_decide_eq_true hwork
      rwa [show others.publicKey id.secret = m.senderKey from hkey.symm] at hbits
    · rw [hpeer, Messages.verifySignature_onWire]
      exact hverifies
    · rw [hsign]
      exact hversion

/-- The message arrives, and is taken in unless the receiver asks for more work. -/
def Arrives (S : Serde) (peer : HandlerContext) (id : Identity) (msg : Message) : Prop :=
  (S.toVec msg).length ≤ maxMessageSize → ∃ frame msg', writeMessage (S.toVec msg) = .ok frame ∧
    (∀ early rest, readMessage early (frame ++ rest) = .ok (S.toVec msg, rest)) ∧
    S.fromBytes (S.toVec msg) = .ok msg' ∧
    (peer.rejection msg' = none ↔ peer.config.minPowDifficulty ≤ id.pow.difficulty)

end

/-! ## Two spawns -/

/-- The signature of a key, which is known for one message. -/
def signatureOf (key : Bytes32) (msg : Bytes) : Bytes :=
  if (key, msg) = (key1, (signedPart putSeven).1) then putSeven.signature else List.replicate 64 0

/-- The crates for the secret key `[1; 32]`. -/
def keyOneCrates : Crates where
  sha256 := Sha256.digest
  validKey _ := true
  publicKey secret := if secret = Bytes32.fill 1 then key1 else secret
  sign secret := signatureOf (if secret = Bytes32.fill 1 then key1 else secret)
  verify key msg signature := signature = signatureOf key msg
  encodePayload _ := none
  toBytes _ := none
  fromBytes _ := none

theorem keyOneCrates_documented : Documented keyOneCrates where
  validKey _ := rfl
  length secret msg := by
    simp only [keyOneCrates, signatureOf]
    split_ifs <;> rfl
  verify _ _ := decide_eq_true rfl

/-- A spawn without a key pair that meets no failure. -/
def plainSpawn (secret : Bytes32) (powDifficulty : UInt8) : SpawnInput :=
  { keypair := none, powDifficulty, loadFails := false, secret, rounds := 8, saveFails := false }

end TesserasDht.SpawnedIdentities
