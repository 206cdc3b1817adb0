import TesserasDht.Code.Routing

/-!
# The iterative lookup

`src/lookup/mod.rs`. `send r id addrs` is what the query of a peer in round `r` gives: nothing when
the RPC fails or its task dies. A run asks each peer once, so a function covers every behaviour.
-/

namespace TesserasDht.Lookup

def maxRounds : Nat := 10

abbrev Query := NodeId × List SocketAddr

abbrev Answer := Option (NodeId × SocketAddr × List NodeInfo)

structure LookupState where
  queried : List NodeId
  closest : List NodeInfo
  /-- The queries of each round so far. -/
  rounds : List (List Query)

def toQuery (alpha : Nat) (s : LookupState) : List Query :=
  ((s.closest.filter fun n => n.nodeId ∉ s.queried ∧ n.addresses ≠ []).take alpha).map
    fun n => (n.nodeId, n.addresses)

/-- There is room, or the node is closer than the last one. `closest.last().unwrap()` is only
reached when there is no room. -/
def admits (target : NodeId) (k : Nat) (closest : List NodeInfo) (node : NodeInfo) : Outcome Bool :=
  if closest.length < k then
    .ok true
  else
    match closest.getLast? with
    | none => .error (.panic .unwrapNone)
    | some last => .ok ((target.distance node.nodeId).cmp (target.distance last.nodeId) = .lt)

/-- One returned node: `closest` and `improved` after it. -/
def mergeNode (target selfId : NodeId) (k : Nat) (acc : List NodeInfo × Bool) (node : NodeInfo) :
    Outcome (List NodeInfo × Bool) :=
  if node.nodeId = selfId then
    .ok acc
  else do
    let admitted ← admits target k acc.1 node
    if admitted && !acc.1.any (fun c => c.nodeId = node.nodeId) then
      return (acc.1 ++ [node], true)
    else
      return acc

/-- The nodes of all answers of a round, in the order the answers are awaited. -/
def returnedNodes (answers : List Answer) : List NodeInfo :=
  answers.flatMap fun a => match a with
    | some (_, _, nodes) => nodes
    | none => []

/-- The round loop, with `n` rounds left and `r` rounds done. -/
def lookupFrom (target selfId : NodeId) (k alpha : Nat)
    (send : Nat → NodeId → List SocketAddr → Answer) :
    Nat → Nat → LookupState → Outcome LookupState
  | 0, _, s => .ok s
  | n + 1, r, s =>
    let queries := toQuery alpha s
    if queries = [] then
      .ok s
    else do
      let answers := queries.map fun q => send r q.1 q.2
      let (closest, improved) ←
        (returnedNodes answers).foldlM (mergeNode target selfId k) (s.closest, false)
      let s' : LookupState :=
        { queried := s.queried ++ queries.map Prod.fst
          closest := (closest.insertionSort (RoutingTable.closer target)).take k
          rounds := s.rounds ++ [queries] }
      if improved then lookupFrom target selfId k alpha send n (r + 1) s' else .ok s'

/-- The whole lookup, with the queries it made. -/
def lookup (target selfId : NodeId) (seedNodes : List NodeInfo) (k alpha : Nat)
    (send : Nat → NodeId → List SocketAddr → Answer) : Outcome LookupState :=
  lookupFrom target selfId k alpha send maxRounds 0 ⟨[selfId], seedNodes, []⟩

def iterativeFindNode (target selfId : NodeId) (seedNodes : List NodeInfo) (k alpha : Nat)
    (send : Nat → NodeId → List SocketAddr → Answer) : Outcome (List NodeInfo) := do
  let s ← lookup target selfId seedNodes k alpha send
  return s.closest

end TesserasDht.Lookup
