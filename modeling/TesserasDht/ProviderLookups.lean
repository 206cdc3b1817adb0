import TesserasDht.Admission
import TesserasDht.ClosestNodes
import TesserasDht.Code.Operations

/-!
# Provider queries

`do_get_providers` with a log of its calls of `send_with_nat_traversal`. The log says whom it asked and what
came back.
-/

open Lib.Tasks TesserasDht.Routing

namespace TesserasDht.ProviderLookups

open ClosestNodes (allNodes nodup_ids_closestNodes)

/-! ## The log -/

structure Call where
  peerId : NodeId
  response : Option Message

/-- The providers of the response. -/
def Call.providers (c : Call) : List NodeInfoSerde :=
  match c.response.map Message.payload with
  | some (.getProvidersResponse providers _) => providers
  | _ => []

section

variable (ctx : HandlerContext) (key : Hash)

/-- `askProviders` with a log. -/
def askLogged : List (NodeId × List SocketAddr) → ProviderSearch → List Call → NodeTask (ProviderSearch × List Call)
  | [], s, calls => return (s, calls)
  | (peerId, addrs) :: rest, s, calls => do
    let msg ← ctx.newMessage (.getProvidersRequest key)
    let resp ← ctx.sendWithNatTraversal addrs peerId msg
    let calls := calls ++ [⟨peerId, resp⟩]
    match resp with
    | none => do
      act (.recordFailure peerId ctx.config.maxFailures)
      askLogged rest s calls
    | some resp =>
      match resp.payload with
      | .getProvidersResponse providers closerNodes => do
        let now ← act .now
        let s := { s with allProviders := s.allProviders ++ providers }
        askLogged rest (closerNodes.foldl (ProviderSearch.addCandidate ctx.nodeId now) s) calls
      | _ => askLogged rest s calls

/-- `providerRounds` with a log. -/
def roundsLogged : Nat → ProviderSearch → List Call → NodeTask (ProviderSearch × List Call)
  | 0, s, calls => return (s, calls)
  | rounds + 1, s, calls =>
    let queries := s.toQuery ctx.config.alpha
    if queries = [] then
      return (s, calls)
    else do
      let (s, calls) ← askLogged ctx key queries
        { s with queried := s.queried ++ queries.map Prod.fst, improved := false } calls
      let s := s.sorted (NodeId.fromBytes key) ctx.config.k
      if s.improved then roundsLogged rounds s calls else return (s, calls)

/-- `doGetProviders` with a log. -/
def getProvidersLogged : NodeTask (List NodeInfoSerde × List Call) := do
  let found ← act (.getProviders key)
  let candidates ← act (.closestNodes (NodeId.fromBytes key) ctx.config.k)
  let (s, calls) ← roundsLogged ctx key 10 ⟨found.getD [], candidates, [ctx.nodeId], false⟩ []
  return (ProviderSearch.dedup s.allProviders, calls)

theorem askLogged_forget (queries : List (NodeId × List SocketAddr)) (s : ProviderSearch) (calls : List Call) :
    (askLogged ctx key queries s calls >>= fun r => pure r.1) = ctx.askProviders key queries s := by
  induction queries generalizing s calls with
  | nil => rfl
  | cons query rest ih =>
    obtain ⟨peerId, addrs⟩ := query
    rw [askLogged, HandlerContext.askProviders, Task.bind_assoc]
    congr 1
    funext msg
    rw [Task.bind_assoc]
    congr 1
    funext resp
    cases resp with
    | none => exact congrArg (Task.op _) (funext fun _ => ih ..)
    | some resp =>
      dsimp only
      cases resp.payload with
      | getProvidersResponse providers closerNodes => exact congrArg (Task.op _) (funext fun _ => ih ..)
      | _ => exact ih ..

theorem roundsLogged_forget (rounds : Nat) (s : ProviderSearch) (calls : List Call) :
    (roundsLogged ctx key rounds s calls >>= fun r => pure r.1) = ctx.providerRounds key rounds s := by
  induction rounds generalizing s calls with
  | zero => rfl
  | succ rounds ih =>
    rw [roundsLogged, HandlerContext.providerRounds]
    dsimp only
    split
    · rfl
    · rw [← askLogged_forget ctx key _ _ calls, Task.bind_assoc, Task.bind_assoc]
      congr 1
      funext r
      rw [pure_bind]
      split
      · exact ih ..
      · rfl

/-- Without the log it is what the source does. -/
theorem getProvidersLogged_forget :
    (getProvidersLogged ctx key >>= fun r => pure r.1) = ctx.doGetProviders key := by
  refine congrArg (Task.op _) (funext fun found => congrArg (Task.op _) (funext fun candidates => ?_))
  change (roundsLogged ctx key 10 ⟨found.getD [], candidates, [ctx.nodeId], false⟩ [] >>= fun r =>
      pure (ProviderSearch.dedup r.1.allProviders, r.2)) >>= (fun r => pure r.1) =
    ctx.providerRounds key 10 ⟨found.getD [], candidates, [ctx.nodeId], false⟩ >>= fun s =>
      pure (ProviderSearch.dedup s.allProviders)
  rw [← roundsLogged_forget ctx key _ _ [], Task.bind_assoc, Task.bind_assoc]
  rfl

end

/-! ## Candidates -/

theorem addCandidate_kept (nodeId : NodeId) (now : Nat) (s : ProviderSearch) (n : NodeInfoSerde) :
    (s.addCandidate nodeId now n).queried = s.queried ∧ (s.addCandidate nodeId now n).allProviders = s.allProviders ∧
      ((ids s.candidates).Nodup → (ids (s.addCandidate nodeId now n).candidates).Nodup) := by
  unfold ProviderSearch.addCandidate
  dsimp only
  split
  · exact ⟨rfl, rfl, id⟩
  · split
    · exact ⟨rfl, rfl, id⟩
    next hnew =>
      refine ⟨rfl, rfl, fun h => ?_⟩
      rw [any_iff_mem] at hnew
      rw [ids, List.map_append]
      exact List.nodup_append.mpr ⟨h, List.nodup_singleton _, by
        rintro id hid _ hnode rfl
        rw [List.map_singleton, List.mem_singleton] at hnode
        exact hnew (hnode ▸ hid)⟩

theorem addCandidates_kept (nodeId : NodeId) (now : Nat) (nodes : List NodeInfoSerde) (s : ProviderSearch) :
    (nodes.foldl (ProviderSearch.addCandidate nodeId now) s).queried = s.queried ∧
      (nodes.foldl (ProviderSearch.addCandidate nodeId now) s).allProviders = s.allProviders ∧
      ((ids s.candidates).Nodup → (ids (nodes.foldl (ProviderSearch.addCandidate nodeId now) s).candidates).Nodup) := by
  induction nodes generalizing s with
  | nil => exact ⟨rfl, rfl, id⟩
  | cons n nodes ih =>
    obtain ⟨hqueried, hproviders, hnodup⟩ := addCandidate_kept nodeId now s n
    obtain ⟨hqueried', hproviders', hnodup'⟩ := ih (s.addCandidate nodeId now n)
    exact ⟨hqueried'.trans hqueried, hproviders'.trans hproviders, fun h => hnodup' (hnodup h)⟩

theorem sorted_nodup {s : ProviderSearch} (h : (ids s.candidates).Nodup) (target : NodeId) (k : Nat) :
    (ids (s.sorted target k).candidates).Nodup :=
  ((List.take_sublist _ _).map _).nodup
    (((List.perm_insertionSort (RoutingTable.closer target) s.candidates).map NodeInfo.nodeId).nodup_iff.mpr h)

theorem toQuery_ids (s : ProviderSearch) (alpha : Nat) : ((s.toQuery alpha).map Prod.fst) =
    ids ((s.candidates.filter fun n => n.nodeId ∉ s.queried ∧ n.addresses ≠ []).take alpha) := by
  rw [ProviderSearch.toQuery, List.map_map]
  rfl

/-- Whom a round asks, it asks once, and nobody was asked before. -/
theorem toQuery_fresh {s : ProviderSearch} (h : (ids s.candidates).Nodup) (hqueried : s.queried.Nodup) (alpha : Nat) :
    (s.queried ++ (s.toQuery alpha).map Prod.fst).Nodup ∧ (s.toQuery alpha).length ≤ alpha := by
  refine ⟨List.nodup_append.mpr ⟨hqueried, ?_, ?_⟩, ?_⟩
  · rw [toQuery_ids]
    exact (((List.take_sublist _ _).trans List.filter_sublist).map _).nodup h
  · rintro id hid _ hmem rfl
    rw [toQuery_ids] at hmem
    obtain ⟨n, hn, rfl⟩ := List.mem_map.mp hmem
    have hfilter := (List.mem_filter.mp (List.mem_of_mem_take hn)).2
    exact (of_decide_eq_true hfilter).1 hid
  · rw [ProviderSearch.toQuery, List.length_map]
    exact List.length_take_le _ _

/-! ## Rounds -/

/-- What the queries to the given peers come to. -/
structure Asked (peers : List NodeId) (s : ProviderSearch) (calls : List Call) (r : ProviderSearch × List Call) :
    Prop where
  calls : ∃ new : List Call, r.2 = calls ++ new ∧ new.map Call.peerId = peers ∧
    r.1.allProviders = s.allProviders ++ new.flatMap Call.providers
  queried : r.1.queried = s.queried
  candidates : (ids s.candidates).Nodup → (ids r.1.candidates).Nodup

/-- The first call, and then the rest. -/
theorem Asked.cons {call : Call} {peers : List NodeId} {s s' : ProviderSearch} {calls : List Call}
    {r : ProviderSearch × List Call} (hproviders : s'.allProviders = s.allProviders ++ call.providers)
    (hqueried : s'.queried = s.queried) (hcandidates : (ids s.candidates).Nodup → (ids s'.candidates).Nodup)
    (h : Asked peers s' (calls ++ [call]) r) : Asked (call.peerId :: peers) s calls r := by
  obtain ⟨new, hcalls, hpeers, hnew⟩ := h.calls
  refine ⟨⟨call :: new, ?_, ?_, ?_⟩, h.queried.trans hqueried, fun hnodup => h.candidates (hcandidates hnodup)⟩
  · rw [hcalls, List.append_assoc, List.singleton_append]
  · rw [List.map_cons, hpeers]
  · rw [hnew, hproviders, List.append_assoc, List.flatMap_cons]

/-- What holds between two rounds. -/
structure Inv (ctx : HandlerContext) (records : List NodeInfoSerde) (s : ProviderSearch) (calls : List Call) : Prop where
  queried : s.queried = ctx.nodeId :: calls.map Call.peerId
  nodup : s.queried.Nodup
  candidates : (ids s.candidates).Nodup
  providers : s.allProviders = records ++ calls.flatMap Call.providers

section

variable (ctx : HandlerContext) (key : Hash)

theorem askLogged_ensures (queries : List (NodeId × List SocketAddr)) (s : ProviderSearch) (calls : List Call) :
    Ensures (Asked (queries.map Prod.fst) s calls) (askLogged ctx key queries s calls) := by
  induction queries generalizing s calls with
  | nil => exact ⟨⟨[], (List.append_nil _).symm, rfl, (List.append_nil _).symm⟩, rfl, id⟩
  | cons query rest ih =>
    obtain ⟨peerId, addrs⟩ := query
    refine (ensures_true _).bind fun msg _ => (ensures_true _).bind fun resp _ => ?_
    have hrest (s' : ProviderSearch) := ih s' (calls ++ [⟨peerId, resp⟩])
    cases resp with
    | none => exact fun _ => (hrest s).mono fun _ h => h.cons (List.append_nil _).symm rfl id
    | some resp =>
      dsimp only
      cases hpayload : resp.payload with
      | getProvidersResponse providers closerNodes =>
        intro now
        obtain ⟨hqueried, hproviders, hnodup⟩ := addCandidates_kept ctx.nodeId now closerNodes
          { s with allProviders := s.allProviders ++ providers }
        exact (hrest _).mono fun _ h =>
          Asked.cons (s := s) (by rw [hproviders]; simp [Call.providers, hpayload]) hqueried hnodup h
      | _ => exact (hrest s).mono fun _ h => h.cons (by simp [Call.providers, hpayload]) rfl id

theorem Inv.round {records : List NodeInfoSerde} {s : ProviderSearch} {calls : List Call}
    (h : Inv ctx records s calls) {improved : Bool} {r : ProviderSearch × List Call}
    (hr : Asked ((s.toQuery ctx.config.alpha).map Prod.fst)
      { s with queried := s.queried ++ (s.toQuery ctx.config.alpha).map Prod.fst, improved } calls r) :
    Inv ctx records (r.1.sorted (NodeId.fromBytes key) ctx.config.k) r.2 ∧
      r.2.length ≤ calls.length + ctx.config.alpha := by
  obtain ⟨hfresh, hfew⟩ := toQuery_fresh h.candidates h.nodup ctx.config.alpha
  obtain ⟨new, hcalls, hpeers, hproviders⟩ := hr.calls
  have hqueried : r.1.queried = s.queried ++ (s.toQuery ctx.config.alpha).map Prod.fst := hr.queried
  have hnew : new.length = (s.toQuery ctx.config.alpha).length := by
    rw [← List.length_map (f := Call.peerId), hpeers, List.length_map]
  refine ⟨⟨?_, ?_, sorted_nodup (hr.candidates h.candidates) _ _, ?_⟩, ?_⟩
  · change r.1.queried = _
    rw [hqueried, h.queried, hcalls, List.map_append, hpeers, List.cons_append]
  · change r.1.queried.Nodup
    rw [hqueried]
    exact hfresh
  · change r.1.allProviders = _
    rw [hproviders, h.providers, hcalls, List.flatMap_append, List.append_assoc]
  · rw [hcalls, List.length_append]
    omega

theorem roundsLogged_ensures {records : List NodeInfoSerde} (rounds : Nat) {s : ProviderSearch} {calls : List Call}
    (h : Inv ctx records s calls) :
    Ensures (fun r => Inv ctx records r.1 r.2 ∧ r.2.length ≤ calls.length + rounds * ctx.config.alpha)
      (roundsLogged ctx key rounds s calls) := by
  induction rounds generalizing s calls with
  | zero => exact ⟨h, Nat.le_add_right _ _⟩
  | succ rounds ih =>
    rw [roundsLogged]
    dsimp only
    split
    · exact ⟨h, Nat.le_add_right _ _⟩
    · refine (askLogged_ensures ctx key _ _ calls).bind fun r hr => ?_
      obtain ⟨hinv, hlen⟩ := h.round ctx key hr
      rw [Nat.succ_mul]
      split
      · exact (ih hinv).mono fun r' h' => ⟨h'.1, by omega⟩
      · refine ⟨hinv, ?_⟩
        dsimp only
        omega

end

/-! ## The list -/

section

variable {p : NodeInfoSerde}

theorem find_eq_some_iff_of_nodup {l : List NodeInfoSerde} (h : (l.map NodeInfoSerde.nodeId).Nodup) :
    (l.find? fun q => q.nodeId = p.nodeId) = some p ↔ p ∈ l := by
  constructor
  · exact List.mem_of_find?_eq_some
  · intro hp
    cases hfind : l.find? fun q => q.nodeId = p.nodeId with
    | none =>
      have := List.find?_eq_none.mp hfind p hp
      simp at this
    | some q =>
      have hid : q.nodeId = p.nodeId := by simpa using List.find?_some hfind
      rw [List.inj_on_of_nodup_map h (List.mem_of_find?_eq_some hfind) hp hid]

/-- With the entries that are kept so far in front. -/
theorem foldl_dedup (l acc : List NodeInfoSerde) (h : (acc.map NodeInfoSerde.nodeId).Nodup) :
    ((l.foldl (fun acc p => if acc.any fun q => q.nodeId = p.nodeId then acc else acc ++ [p]) acc).map
        NodeInfoSerde.nodeId).Nodup ∧
      (p ∈ l.foldl (fun acc p => if acc.any fun q => q.nodeId = p.nodeId then acc else acc ++ [p]) acc ↔
        ((acc ++ l).find? fun q => q.nodeId = p.nodeId) = some p) := by
  induction l generalizing acc with
  | nil =>
    rw [List.append_nil]
    exact ⟨h, (find_eq_some_iff_of_nodup h).symm⟩
  | cons x rest ih =>
    rw [List.foldl_cons]
    split
    next hany =>
      obtain ⟨q, hq, hid⟩ := List.any_eq_true.mp hany
      have hsame : ((acc ++ x :: rest).find? fun q => q.nodeId = p.nodeId) =
          ((acc ++ rest).find? fun q => q.nodeId = p.nodeId) := by
        rw [List.find?_append, List.find?_append, List.find?_cons]
        split
        next hx =>
          -- An entry with that id is found in front.
          have hsome : (acc.find? fun q => q.nodeId = p.nodeId).isSome := by
            rw [List.find?_isSome]
            exact ⟨q, hq, by simp_all⟩
          obtain ⟨r, hr⟩ := Option.isSome_iff_exists.mp hsome
          rw [hr]
          rfl
        next => rfl
      rw [hsame]
      exact ih acc h
    next hany =>
      have hnew : ((acc ++ [x]).map NodeInfoSerde.nodeId).Nodup := by
        rw [List.map_append]
        refine List.nodup_append.mpr ⟨h, List.nodup_singleton _, ?_⟩
        rintro id hid _ hx rfl
        obtain ⟨q, hq, rfl⟩ := List.mem_map.mp hid
        rw [List.map_singleton, List.mem_singleton] at hx
        exact hany (List.any_eq_true.mpr ⟨q, hq, decide_eq_true hx⟩)
      rw [List.append_cons acc x rest]
      exact ih _ hnew

theorem dedup_nodup (l : List NodeInfoSerde) : ((ProviderSearch.dedup l).map NodeInfoSerde.nodeId).Nodup :=
  (foldl_dedup (p := ⟨Bytes32.fill 0, Bytes32.fill 0, []⟩) l [] List.nodup_nil).1

theorem mem_dedup_iff (l : List NodeInfoSerde) :
    p ∈ ProviderSearch.dedup l ↔ (l.find? fun q => q.nodeId = p.nodeId) = some p :=
  (foldl_dedup l [] List.nodup_nil).2

end

/-! ## The whole query -/

/-- The providers that the own store knows of. -/
def ownRecords (input : Input) (key : Hash) (s : NodeState) : List NodeInfoSerde :=
  if input.metadataFails then [] else getProviders input.seconds key s.providers

/-- What the query ends with, whatever comes back. -/
structure Ended (ctx : HandlerContext) (records : List NodeInfoSerde) (r : List NodeInfoSerde × List Call) : Prop where
  search : ∃ s, Inv ctx records s r.2 ∧ r.1 = ProviderSearch.dedup s.allProviders
  length : r.2.length ≤ 10 * ctx.config.alpha

theorem roundsLogged_ended (ctx : HandlerContext) (key : Hash) {candidates : List NodeInfo}
    (h : (ids candidates).Nodup) (records : List NodeInfoSerde) :
    Ensures (Ended ctx records) (roundsLogged ctx key 10 ⟨records, candidates, [ctx.nodeId], false⟩ [] >>= fun r =>
      pure (ProviderSearch.dedup r.1.allProviders, r.2)) := by
  have hstart : Inv ctx records ⟨records, candidates, [ctx.nodeId], false⟩ [] :=
    ⟨rfl, List.nodup_singleton _, h, (List.append_nil _).symm⟩
  exact (roundsLogged_ensures ctx key 10 hstart).bind fun r hr =>
    ⟨⟨r.1, hr.1, rfl⟩, by simpa using hr.2⟩

theorem getProvidersLogged_ended (ctx : HandlerContext) (inputs : Nat → Input) (n : Nat) (s : NodeState) (key : Hash)
    (hdistinct : (ids (allNodes s.routingTable)).Nodup) :
    Ended ctx (ownRecords (inputs n) key s)
      (exec (Op.apply ctx.build ctx.crates.sha256) inputs n (getProvidersLogged ctx key) s).1 := by
  have hfound : (if (inputs n).metadataFails then none
      else some (getProviders (inputs n).seconds key s.providers)).getD [] = ownRecords (inputs n) key s := by
    unfold ownRecords
    split <;> rfl
  rw [getProvidersLogged, perform_bind, exec]
  dsimp only [Op.apply]
  rw [perform_bind, exec, hfound]
  exact exec_ensures (roundsLogged_ended ctx key (nodup_ids_closestNodes hdistinct _ _) _) (n + 2) s

/-- Whatever the peers answer: nobody is asked twice, this node never, and at most ten times `alpha` peers. The
list has the first record of each node, of the own ones and of those in the order in which they came. -/
theorem providers_complete (ctx : HandlerContext) (inputs : Nat → Input) (n : Nat) (s : NodeState) (key : Hash)
    (hdistinct : (ids (allNodes s.routingTable)).Nodup) :
    let run := exec (Op.apply ctx.build ctx.crates.sha256) inputs n (getProvidersLogged ctx key) s
    let calls := run.1.2
    exec (Op.apply ctx.build ctx.crates.sha256) inputs n (ctx.doGetProviders key) s = (run.1.1, run.2) ∧
    (calls.map Call.peerId).Nodup ∧ ctx.nodeId ∉ calls.map Call.peerId ∧ calls.length ≤ 10 * ctx.config.alpha ∧
    (run.1.1.map NodeInfoSerde.nodeId).Nodup ∧
    ∀ p, p ∈ run.1.1 ↔ ((ownRecords (inputs n) key s ++ calls.flatMap Call.providers).find? fun q =>
      q.nodeId = p.nodeId) = some p := by
  intro run calls
  obtain ⟨⟨search, hinv, hlist⟩, hlength⟩ := getProvidersLogged_ended ctx inputs n s key hdistinct
  have hnodup := hinv.nodup
  rw [hinv.queried, List.nodup_cons] at hnodup
  refine ⟨?_, hnodup.2, hnodup.1, hlength, ?_, fun p => ?_⟩
  · rw [← getProvidersLogged_forget, exec_bind]
    rfl
  · rw [show run.1.1 = _ from hlist]
    exact dedup_nodup _
  · rw [show run.1.1 = _ from hlist, mem_dedup_iff, hinv.providers]

def oneRecord : NodeInfoSerde := ⟨Bytes32.fill 9, Bytes32.fill 8, [.v4 10 0 0 9 4433]⟩

/-- Every peer names the same provider twice, and one closer node. -/
def repeating : Input :=
  { Admission.quietInput with answer := some (Message.new 7 (Bytes32.fill 1) (Bytes32.fill 2) ⟨0, 0⟩
      (.getProvidersResponse [oneRecord, oneRecord] [⟨Bytes32.fill 3, Bytes32.fill 4, [.v4 10 0 0 3 4433]⟩])) }

def onePeer : NodeState :=
  { Admission.freshState with
    routingTable := (Admission.freshState.routingTable.setBucket ⟨7, by decide⟩
      { KBucket.new 0 20 with nodes := [peerOf 1] }) }

def repeatingContext : HandlerContext := Admission.contextWith Admission.putCrates

def repeatingRun : (List NodeInfoSerde × List Call) × NodeState :=
  exec (Op.apply repeatingContext.build repeatingContext.crates.sha256) (fun _ => repeating) 0
    (getProvidersLogged repeatingContext (Bytes32.fill 5)) onePeer

theorem providers_complete_repeating :
    (repeatingRun.1.2.map Call.peerId).Nodup ∧ oneRecord ∈ repeatingRun.1.1 ∧
      (repeatingRun.1.1.map NodeInfoSerde.nodeId).Nodup := by
  obtain ⟨-, hpeers, -, -, hnodup, hmem⟩ := providers_complete repeatingContext (fun _ => repeating) 0 onePeer
    (Bytes32.fill 5) (by decide +kernel)
  unfold repeatingRun
  exact ⟨hpeers, (hmem oneRecord).mpr (by decide +kernel), hnodup⟩

end TesserasDht.ProviderLookups
