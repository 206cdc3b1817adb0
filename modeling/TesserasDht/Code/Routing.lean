import TesserasDht.Code.NodeId
import TesserasDht.Lib.Lists

/-!
# The routing table

`src/routing/bucket.rs` and `src/routing/table.rs`. An `Instant` is a natural number, and each
operation takes the clock reading it makes.
-/

open Lib.Lists

namespace TesserasDht

/-! ## Peers -/

def maxPeerAddrs : Nat := 8

/-- `Ipv4Addr::is_private`, `is_loopback` and `is_link_local`; of IPv6 only `::1`. -/
def isLanAddr : SocketAddr → Bool
  | .v4 a b _ _ _ => a = 10 ∨ (a = 172 ∧ 16 ≤ b ∧ b ≤ 31) ∨ (a = 192 ∧ b = 168) ∨ a = 127 ∨
      (a = 169 ∧ b = 254)
  | .v6 ip _ _ _ => ip.segments = [0, 0, 0, 0, 0, 0, 0, 1]

structure NodeInfo where
  nodeId : NodeId
  publicKey : Bytes32
  addresses : List SocketAddr
  lastSeen : Nat
  failCount : UInt8
deriving DecidableEq, Repr

def NodeInfo.new (now : Nat) (nodeId : NodeId) (publicKey : Bytes32) (addresses : List SocketAddr) :
    NodeInfo :=
  { nodeId, publicKey, addresses, lastSeen := now, failCount := 0 }

def NodeInfo.markSeen (now : Nat) (n : NodeInfo) : NodeInfo :=
  { n with lastSeen := now, failCount := 0 }

def NodeInfo.recordFailure (n : NodeInfo) : NodeInfo :=
  { n with failCount := if n.failCount = 255 then 255 else n.failCount + 1 }

/-- The addresses of a known peer after it was heard of with `new`: what is missing is appended,
LAN addresses move to the front, and the rest is cut. -/
def mergeAddresses (old new : List SocketAddr) : List SocketAddr :=
  let all := new.foldl (fun acc a => if a ∈ acc then acc else acc ++ [a]) old
  (all.insertionSort (fun a b => (!isLanAddr a) ≤ (!isLanAddr b))).take maxPeerAddrs

/-! ## One bucket -/

structure KBucket where
  k : Nat
  nodes : List NodeInfo
  replacementCache : List NodeInfo
  maxCacheSize : Nat
  lastUpdated : Nat
deriving DecidableEq, Repr

inductive InsertResult
  | inserted
  | bucketFull (lrsNodeId : NodeId)
  | updated
deriving DecidableEq, Repr

namespace KBucket

def new (now k : Nat) : KBucket :=
  { k, nodes := [], replacementCache := [], maxCacheSize := k, lastUpdated := now }

def isFull (b : KBucket) : Bool := b.k ≤ b.nodes.length

/-- The `while` loop of `add_to_cache` removes from the front what is too much. -/
def addToCache (b : KBucket) (node : NodeInfo) : KBucket :=
  let cache := b.replacementCache.filter (fun n => n.nodeId ≠ node.nodeId) ++ [node]
  { b with replacementCache := cache.drop (cache.length - b.maxCacheSize) }

def insert (b : KBucket) (now : Nat) (node : NodeInfo) : Outcome (KBucket × InsertResult) :=
  match b.nodes.find? (fun n => n.nodeId = node.nodeId) with
  | some _ =>
    let update (n : NodeInfo) : NodeInfo :=
      { n.markSeen now with addresses := mergeAddresses n.addresses node.addresses }
    .ok ({ b with
      nodes := modifyFirst (fun n => n.nodeId = node.nodeId) update b.nodes
      lastUpdated := now }, .updated)
  | none =>
    if !b.isFull then
      .ok ({ b with nodes := b.nodes ++ [node], lastUpdated := now }, .inserted)
    else
      -- `self.nodes[0]`: a bucket with `k = 0` is full and empty.
      match b.nodes with
      | [] => .error (.panic .indexOutOfBounds)
      | lrs :: _ => .ok (b.addToCache node, .bucketFull lrs.nodeId)

def evictAndInsert (b : KBucket) (now : Nat) (failedId : NodeId) (newNode : NodeInfo) :
    KBucket × Bool :=
  if b.nodes.any (fun n => n.nodeId = failedId) then
    ({ b with
      nodes := b.nodes.eraseP (fun n => n.nodeId = failedId) ++ [newNode]
      replacementCache := b.replacementCache.filter (fun n => n.nodeId ≠ newNode.nodeId)
      lastUpdated := now }, true)
  else
    (b, false)

def remove (b : KBucket) (nodeId : NodeId) : KBucket × Bool :=
  if b.nodes.any (fun n => n.nodeId = nodeId) then
    ({ b with
      nodes := b.nodes.eraseP (fun n => n.nodeId = nodeId) ++ b.replacementCache.getLast?.toList
      replacementCache := b.replacementCache.dropLast }, true)
  else
    (b, false)

def recordFailure (b : KBucket) (nodeId : NodeId) (maxFailures : UInt8) : KBucket :=
  match b.nodes.find? (fun n => n.nodeId = nodeId) with
  | none => b
  | some node =>
    let b' := { b with
      nodes := modifyFirst (fun n => n.nodeId = nodeId) NodeInfo.recordFailure b.nodes }
    if maxFailures ≤ node.recordFailure.failCount then (b'.remove node.nodeId).1 else b'

def markSeen (b : KBucket) (now : Nat) (nodeId : NodeId) : KBucket :=
  { b with nodes := modifyFirst (fun n => n.nodeId = nodeId) (NodeInfo.markSeen now) b.nodes }

end KBucket

/-! ## The table -/

structure RoutingTable where
  localId : NodeId
  k : Nat
  buckets : List KBucket
  len : buckets.length = 256

namespace RoutingTable

def new (now : Nat) (localId : NodeId) (k : Nat) : RoutingTable :=
  ⟨localId, k, List.replicate 256 (KBucket.new now k), List.length_replicate⟩

/-- An id equal to the local one has a common prefix of 256 bits, cut to the last bucket. -/
def bucketIndex (t : RoutingTable) (id : NodeId) : Fin 256 :=
  ⟨min (t.localId.commonPrefixLength id) 255, by omega⟩

def bucket (t : RoutingTable) (i : Fin 256) : KBucket :=
  t.buckets.get ⟨i, by rw [t.len]; exact i.isLt⟩

def setBucket (t : RoutingTable) (i : Fin 256) (b : KBucket) : RoutingTable :=
  { t with buckets := t.buckets.set i b, len := by rw [List.length_set, t.len] }

def insert (t : RoutingTable) (now : Nat) (node : NodeInfo) :
    Outcome (RoutingTable × InsertResult) :=
  if node.nodeId = t.localId then
    .ok (t, .updated)
  else do
    let i := t.bucketIndex node.nodeId
    let (b, r) ← (t.bucket i).insert now node
    return (t.setBucket i b, r)

def evictAndInsert (t : RoutingTable) (now : Nat) (failedId : NodeId) (newNode : NodeInfo) :
    RoutingTable × Bool :=
  let i := t.bucketIndex failedId
  let (b, r) := (t.bucket i).evictAndInsert now failedId newNode
  (t.setBucket i b, r)

def remove (t : RoutingTable) (nodeId : NodeId) : RoutingTable × Bool :=
  let i := t.bucketIndex nodeId
  let (b, r) := (t.bucket i).remove nodeId
  (t.setBucket i b, r)

def recordFailure (t : RoutingTable) (nodeId : NodeId) (maxFailures : UInt8) : RoutingTable :=
  let i := t.bucketIndex nodeId
  t.setBucket i ((t.bucket i).recordFailure nodeId maxFailures)

/-- The first node with the address in the first bucket that has one. -/
def recordFailureByAddr (t : RoutingTable) (addr : SocketAddr) (maxFailures : UInt8) :
    RoutingTable :=
  let hasAddr (n : NodeInfo) : Bool := addr ∈ n.addresses
  let charge (b : KBucket) : KBucket :=
    match b.nodes.find? hasAddr with
    | some n => b.recordFailure n.nodeId maxFailures
    | none => b
  { t with
    buckets := modifyFirst (fun b => b.nodes.any hasAddr) charge t.buckets
    len := by rw [length_modifyFirst, t.len] }

def markSeen (t : RoutingTable) (now : Nat) (nodeId : NodeId) : RoutingTable :=
  let i := t.bucketIndex nodeId
  t.setBucket i ((t.bucket i).markSeen now nodeId)

/-- `nodes` of bucket `i`, and nothing past the last bucket. -/
def nodesAt (t : RoutingTable) (i : Nat) : List NodeInfo := (t.buckets[i]?.map KBucket.nodes).getD []

/-- The `while` loop of `closest_nodes`. The next lower bucket is `lo - 1`, so `lo = 0` is the
source's `lo < 0`. Each round uses up a bucket, so 256 rounds are enough. -/
def walk (t : RoutingTable) (count : Nat) : Nat → Nat → Nat → List NodeInfo → List NodeInfo
  | 0, _, _, candidates => candidates
  | rounds + 1, lo, hi, candidates =>
    if candidates.length < count ∧ (0 < lo ∨ hi < 256) then
      let candidates := if 0 < lo then candidates ++ t.nodesAt (lo - 1) else candidates
      let candidates := if hi < 256 then candidates ++ t.nodesAt hi else candidates
      walk t count rounds (lo - 1) (if hi < 256 then hi + 1 else hi) candidates
    else
      candidates

/-- `Ordering::is_le` of the two distances to `target`. -/
def closer (target : NodeId) (a b : NodeInfo) : Prop :=
  ((target.distance a.nodeId).cmp (target.distance b.nodeId)).isLE = true

instance (target : NodeId) : DecidableRel (closer target) :=
  fun _ _ => inferInstanceAs (Decidable (_ = true))

def closestNodes (t : RoutingTable) (target : NodeId) (count : Nat) : List NodeInfo :=
  let center := (t.bucketIndex target).val
  let candidates := t.walk count 256 (center + 1) (center + 1) []
  (candidates.insertionSort (closer target)).take count

/-- `len` of the source. -/
def size (t : RoutingTable) : Nat := (t.buckets.map fun b => b.nodes.length).sum

/-! ## Random ids -/

def bitMask (bit : Nat) : UInt8 := 0x80 >>> UInt8.ofNat (bit % 8)

/-- One round of the `for` loop of `random_id_for_bucket`. -/
def copyBit (localBytes bytes : Bytes) (bit : Nat) : Bytes :=
  bytes.modify (bit / 8) fun byte =>
    (byte &&& ~~~bitMask bit) ||| (localBytes.getD (bit / 8) 0 &&& bitMask bit)

def copyBits (localBytes bytes : Bytes) (count : Nat) : Bytes :=
  (List.range count).foldl (copyBit localBytes) bytes

/-- Make the bit differ from the one of `localBytes`. -/
def flipBit (localBytes bytes : Bytes) (bit : Nat) : Bytes :=
  bytes.modify (bit / 8) fun byte =>
    if byte &&& bitMask bit = localBytes.getD (bit / 8) 0 &&& bitMask bit then byte ^^^ bitMask bit else byte

theorem length_copyBits (localBytes bytes : Bytes) (count : Nat) :
    (copyBits localBytes bytes count).length = bytes.length := by
  induction count with
  | zero => rfl
  | succ count ih =>
    rw [copyBits, List.range_succ, List.foldl_append, List.foldl_cons, List.foldl_nil, copyBit,
      List.length_modify]
    exact ih

/-- `random` is what `rand::random()` returns. -/
def randomIdForBucket (t : RoutingTable) (random : Bytes32) (bucketIndex : Nat) : NodeId :=
  let bytes := copyBits t.localId.bytes random.bytes (min bucketIndex 256)
  ⟨if bucketIndex < 256 then flipBit t.localId.bytes bytes bucketIndex else bytes, by
    split <;> simp [bytes, flipBit, length_copyBits, random.len]⟩

end RoutingTable

end TesserasDht
