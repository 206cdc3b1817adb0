import TesserasDht.Code.Sqlite

/-!
# Provider maintenance

The metadata calls of `do_provider_maintenance`. Each call takes the lock of the store for itself, so
that the other calls of `add_provider`, of a store and of an `AddProviderRequest`, come between them.
What the maintenance sends does not touch the store.
-/

namespace TesserasDht

/-- Which call of `do_provider_maintenance` is next. -/
inductive MaintenancePc
  | cleanup
  | read
  | refresh (ownKeys : List Hash)
deriving DecidableEq, Repr

structure ProviderState where
  rows : List ProvidersRow
  pc : MaintenancePc

/-- What the calls of a node have in common. -/
structure Maintainer where
  json : Json
  build : Build
  nodeId : Bytes32
  publicKey : Bytes32
  providerTtl : Nat

inductive ProviderAction
  | addProvider (now : Nat) (fails : Bool) (contentKey : Hash) (nodeId publicKey : Bytes32)
      (addresses : List SocketAddr)
  /-- The next call of the maintenance. -/
  | maintain (now : Nat) (fails : Bool) (localAddr : SocketAddr)

namespace ProviderAction

def now : ProviderAction → Nat
  | .addProvider now _ _ _ _ _ | .maintain now _ _ => now

end ProviderAction

namespace Maintainer

variable (m : Maintainer)

/-- The rows after the call, and whether it succeeded. A panic is a failure of its task. -/
def addProvider (now : Nat) (fails : Bool) (contentKey : Hash) (nodeId publicKey : Bytes32)
    (addresses : List SocketAddr) (rows : List ProvidersRow) : List ProvidersRow × Bool :=
  if fails then
    (rows, false)
  else
    match MetadataStore.addProvider m.json m.build now m.providerTtl contentKey nodeId publicKey
      addresses rows with
    | .ok rows => (rows, true)
    | .error _ => (rows, false)

/-- A failed cleanup is logged, a failed read ends the maintenance, and a failed refresh is ignored. -/
def maintain (now : Nat) (fails : Bool) (localAddr : SocketAddr) (s : ProviderState) :
    ProviderState × Bool :=
  match s.pc with
  | .cleanup =>
    if fails then
      ({ s with pc := .read }, false)
    else
      ({ rows := (MetadataStore.cleanupExpiredProviders now s.rows).1, pc := .read }, true)
  | .read =>
    if fails then
      ({ s with pc := .cleanup }, false)
    else
      ({ s with pc := .refresh (MetadataStore.getOwnProviders now m.nodeId s.rows) }, true)
  | .refresh [] => ({ s with pc := .cleanup }, true)
  | .refresh (key :: rest) =>
    let (rows, ok) := m.addProvider now fails key m.nodeId m.publicKey [localAddr] s.rows
    ({ rows, pc := .refresh rest }, ok)

def apply (s : ProviderState) : ProviderAction → ProviderState × Bool
  | .addProvider now fails contentKey nodeId publicKey addresses =>
    let (rows, ok) := m.addProvider now fails contentKey nodeId publicKey addresses s.rows
    ({ s with rows }, ok)
  | .maintain now fails localAddr => m.maintain now fails localAddr s

end Maintainer

end TesserasDht
