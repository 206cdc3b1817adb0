import TesserasDht.Code.NodeId

/-!
# Provider records

`src/storage/sqlite.rs`. The table has one row for each content key and node id. A time is a number
of seconds, and the table keeps it as an `i64`.
-/

namespace TesserasDht

/-- `n as i64` for a `u64`. -/
def toI64 (n : Nat) : Int := if n < 2 ^ 63 then n else n - 2 ^ 64

structure ProviderRow where
  contentKey : Hash
  nodeId : NodeId
  publicKey : Bytes32
  addresses : List SocketAddr
  expiresAt : Int
deriving DecidableEq, Repr

/-- `INSERT OR REPLACE`, at the time `now`. -/
def addProvider (b : Build) (now ttl : Nat) (contentKey : Hash) (nodeId : NodeId) (publicKey : Bytes32)
    (addresses : List SocketAddr) (rows : List ProviderRow) : Outcome (List ProviderRow) := do
  let expiresAt ← b.add now ttl
  let row := { contentKey, nodeId, publicKey, addresses, expiresAt := toI64 expiresAt }
  return rows.filter (fun r => ¬(r.contentKey = contentKey ∧ r.nodeId = nodeId)) ++ [row]

def getOwnProviders (now : Nat) (nodeId : NodeId) (rows : List ProviderRow) : List Hash :=
  ((rows.filter fun r => r.nodeId = nodeId ∧ toI64 now < r.expiresAt).map ProviderRow.contentKey).dedup

end TesserasDht
