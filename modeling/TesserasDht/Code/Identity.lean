import TesserasDht.Code.Message

/-!
# The identity of a node

`PowProof::generate` of `src/identity/pow.rs`, `save_identity` and `load_identity` of
`src/storage/sqlite.rs`, and the step of `NodeBuilder::spawn` in `src/node.rs` that uses them.
-/

namespace TesserasDht

/-- The loop of `PowProof::generate` from a nonce on. If it has not ended after so many rounds, there is
no proof yet. -/
def PowProof.generateFrom (sha256 : Bytes → Hash) (publicKey : Bytes32) (difficulty : UInt8) :
    (rounds : Nat) → (nonce : UInt64) → Option PowProof
  | 0, _ => none
  | rounds + 1, nonce =>
    if verifyPowHash sha256 publicKey nonce difficulty then some ⟨nonce, difficulty⟩
    else generateFrom sha256 publicKey difficulty rounds (nonce + 1)

def PowProof.generate (sha256 : Bytes → Hash) (publicKey : Bytes32) (difficulty : UInt8) (rounds : Nat) :
    Option PowProof :=
  PowProof.generateFrom sha256 publicKey difficulty rounds 0

/-- A key pair, which is its secret key, and its proof of work. -/
structure Identity where
  secret : Bytes32
  pow : PowProof
deriving DecidableEq

/-- The one row of the `identity` table. -/
structure IdentityRow where
  secretKey : Bytes
  powNonce : Int64
  powDifficulty : Int32
deriving DecidableEq

def saveIdentity (id : Identity) : IdentityRow :=
  ⟨id.secret.bytes, id.pow.nonce.toInt64, id.pow.difficulty.toUInt32.toInt32⟩

/-- The panic of `copy_from_slice`. -/
inductive LoadPanic
  | blobLength
deriving DecidableEq

def loadIdentity : Option IdentityRow → Except LoadPanic (Option Identity)
  | none => .ok none
  | some row => match toArray32 row.secretKey with
    | none => .error .blobLength
    | some secret => .ok (some ⟨secret, row.powNonce.toUInt64, row.powDifficulty.toUInt32.toUInt8⟩)

/-- What a spawn meets: the builder, the clock of the search for a proof, the random key, and what fails. -/
structure SpawnInput where
  keypair : Option Identity
  powDifficulty : UInt8
  loadFails : Bool
  secret : Bytes32
  rounds : Nat
  saveFails : Bool

/-- A new identity, once its proof is found. It is saved if that works. -/
def generateIdentity (crates : Crates) (i : SpawnInput) (row : Option IdentityRow) :
    Option Identity × Option IdentityRow :=
  match PowProof.generate crates.sha256 (crates.publicKey i.secret) i.powDifficulty i.rounds with
  | none => (none, row)
  | some pow => (some ⟨i.secret, pow⟩, if i.saveFails then row else some (saveIdentity ⟨i.secret, pow⟩))

/-- The identity of a node that is spawned, and the table from then on. `none` searches still. -/
def spawnIdentity (crates : Crates) (i : SpawnInput) (row : Option IdentityRow) :
    Except LoadPanic (Option Identity) × Option IdentityRow :=
  match i.keypair with
  | some id => (.ok (some id), row)
  | none =>
    let generated := generateIdentity crates i row
    if i.loadFails then (.ok generated.1, generated.2)
    else match loadIdentity row with
      | .error e => (.error e, row)
      | .ok (some id) => (.ok (some id), row)
      | .ok none => (.ok generated.1, generated.2)

end TesserasDht
