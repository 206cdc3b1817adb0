import TesserasDht.Admission
import TesserasDht.Code.StoreRun

/-!
# Does a store leave failed peers alone?

`failed_peers` is filled when all handles are joined, and nothing looks at it after that. So which requests
a store spawns does not depend on how they end.
-/

open Lib.Runs Lib.Tasks

namespace TesserasDht.StoreFailures

/-! ## What a store may do -/

/-- The ghost state has the results once there are any, and the peers marked as failed. -/
def contract (ctx : HandlerContext) :
    Contract (Option (List (NodeId × RpcEnd)) × List NodeId) StoreOp StoreOp.Result where
  owes g
    | .spawn rpc => rpc.hasHandle = g.1.isNone ∧ (rpc.hasHandle → 0 < ctx.config.alpha)
    | .joinAll => g.1 = none
    | .markFailed peerId =>
      ∃ results e, g.1 = some results ∧ (peerId, e) ∈ results ∧ e ≠ .response (.putChunkResponse true)
    | _ => True
  gets _ _ _ := True
  next g
    | .joinAll, results => (some results, g.2)
    | .markFailed peerId, _ => (g.1, g.2.insert peerId)
    | _, _ => g

/-- Each answer that the accounting takes for a rejection marks its peer. -/
def Marked (results : List (NodeId × RpcEnd)) (marked : List NodeId) : Prop :=
  ∀ p payload, (p, .response payload) ∈ results → payload ≠ .putChunkResponse true → p ∈ marked

section

variable {α : Type} {g : Option (List (NodeId × RpcEnd)) × List NodeId} (ctx : HandlerContext)

theorem onNode_keeps (t : NodeTask α) : Keeps (contract ctx) (fun g' _ => g' = g) g (onNode t) := by
  induction t with
  | ret a => exact rfl
  | op e k ih => exact ⟨trivial, fun r _ => ih r⟩

theorem offer_keeps (hg : g.1 = none) (payload : Payload) (nodes : List NodeInfo) (sent : Nat) :
    Keeps (contract ctx) (fun g' _ => g' = g) g (ctx.offer payload nodes sent) := by
  induction nodes generalizing sent with
  | nil => exact rfl
  | cons node rest ih =>
    unfold HandlerContext.offer
    split
    · exact rfl
    next hsent =>
      split
      · exact ih sent
      · refine Keeps.perform trivial fun failed _ => ?_
        split
        · exact ih sent
        · refine (onNode_keeps ctx _).bind fun g' msg hg' => ?_
          subst hg'
          exact Keeps.perform ⟨by rw [hg]; rfl, fun _ => by omega⟩ fun _ _ => ih (sent + 1)

theorem offerChunks_keeps (hg : g.1 = none) (announceAddr : SocketAddr) (chunks : List (Hash × Bytes)) :
    Keeps (contract ctx) (fun g' _ => g' = g) g (ctx.offerChunks announceAddr chunks) := by
  induction chunks with
  | nil => exact rfl
  | cons chunk rest ih =>
    refine Keeps.perform trivial fun closest _ => (offer_keeps ctx hg _ closest 0).bind fun g' _ hg' => ?_
    subst hg'
    exact Keeps.perform trivial fun _ _ => ih

theorem announceChunks_keeps (hg : g.1 = none) (announceAddr : SocketAddr) (chunks : List (Hash × Bytes)) :
    Keeps (contract ctx) (fun g' _ => g' = g) g (ctx.announceChunks announceAddr chunks) := by
  induction chunks with
  | nil => exact rfl
  | cons chunk rest ih =>
    refine Keeps.perform trivial fun closest _ => (offer_keeps ctx hg _ closest 0).bind fun g' _ hg' => ?_
    subst hg'
    exact ih

theorem offerBlocks_keeps (hg : g.1 = none) (announceAddr : SocketAddr) (blocks : List (List (Hash × Bytes))) :
    Keeps (contract ctx) (fun g' _ => g' = g) g (ctx.offerBlocks announceAddr blocks) := by
  induction blocks with
  | nil => exact rfl
  | cons chunks rest ih =>
    refine (onNode_keeps ctx _).bind fun g' stored hg' => ?_
    subst hg'
    cases stored with
    | error e => exact rfl
    | ok =>
      refine (offerChunks_keeps ctx hg announceAddr chunks).bind fun g' _ hg' => ?_
      subst hg'
      refine (announceChunks_keeps ctx hg announceAddr chunks).bind fun g' _ hg' => ?_
      subst hg'
      exact ih

theorem settleResults_keeps {all : List (NodeId × RpcEnd)} (hg : g.1 = some all) (results : List (NodeId × RpcEnd))
    (h : results ⊆ all) :
    Keeps (contract ctx) (fun g' _ => g'.1 = some all ∧ g.2 ⊆ g'.2 ∧ Marked results g'.2) g
      (ctx.settleResults results) := by
  induction results generalizing g with
  | nil => exact ⟨hg, List.Subset.refl _, by rintro _ _ ⟨⟩⟩
  | cons result rest ih =>
    obtain ⟨hmem, hrest⟩ := List.cons_subset.mp h
    obtain ⟨peerId, e⟩ := result
    have hskip (he : ∀ payload, e = .response payload → payload = .putChunkResponse true) :
        Keeps (contract ctx) (fun g' _ => g'.1 = some all ∧ g.2 ⊆ g'.2 ∧ Marked ((peerId, e) :: rest) g'.2) g
          (ctx.settleResults rest) := by
      refine (ih hg hrest).mono fun g' _ ⟨hall, hsub, hmarked⟩ => ⟨hall, hsub, fun p payload hp hpayload => ?_⟩
      rcases List.mem_cons.mp hp with heq | hp
      · injection heq with _ heq
        exact absurd (he payload heq.symm) hpayload
      · exact hmarked p payload hp hpayload
    have howes (he : e ≠ .response (.putChunkResponse true)) : (contract ctx).owes g (.markFailed peerId) :=
      ⟨all, e, hg, hmem, he⟩
    have hmark : Keeps (contract ctx) (fun g' _ => g'.1 = some all ∧ g.2 ⊆ g'.2 ∧ Marked ((peerId, e) :: rest) g'.2)
        (g.1, g.2.insert peerId) (ctx.settleResults rest) := by
      refine (ih (g := (g.1, g.2.insert peerId)) hg hrest).mono fun g' _ ⟨hall, hsub, hmarked⟩ =>
        ⟨hall, fun p hp => hsub (List.mem_insert_of_mem hp), fun p payload hp hpayload => ?_⟩
      rcases List.mem_cons.mp hp with heq | hp
      · injection heq with heq _
        exact hsub (heq ▸ List.mem_insert_self)
      · exact hmarked p payload hp hpayload
    unfold HandlerContext.settleResults
    cases e with
    | response payload =>
      dsimp only
      split
      next hpayload => exact hskip fun _ heq => by injection heq with heq; rw [← heq, hpayload]
      next hpayload => exact Keeps.perform (howes fun heq => hpayload (by injection heq)) fun _ _ => hmark
    | error text =>
      dsimp only
      split
      · exact hskip (by rintro _ ⟨⟩)
      · exact Keeps.perform (howes (by rintro ⟨⟩)) fun _ _ => Keeps.perform trivial fun _ _ => hmark
    | panicked => exact Keeps.perform (howes (by rintro ⟨⟩)) fun _ _ => Keeps.perform trivial fun _ _ => hmark
    | timedOut => exact Keeps.perform (howes (by rintro ⟨⟩)) fun _ _ => Keeps.perform trivial fun _ _ => hmark

theorem spread_keeps {results : List (NodeId × RpcEnd)} (hg : g.1 = some results) (payload : Payload)
    (nodes : List NodeInfo) : Keeps (contract ctx) (fun g' _ => g' = g) g (ctx.spread payload nodes) := by
  induction nodes with
  | nil => exact rfl
  | cons node rest ih =>
    unfold HandlerContext.spread
    split
    · exact ih
    · refine (onNode_keeps ctx _).bind fun g' msg hg' => ?_
      subst hg'
      exact Keeps.perform ⟨by rw [hg]; rfl, by rintro ⟨⟩⟩ fun _ _ => ih

/-- Before the join only chunk requests are spawned, and no peer is marked as failed. -/
theorem storeTessera_keeps (blocks : List (List (Hash × Bytes))) (encoder : Outcome Unit) (manifest : Hash × Bytes) :
    Keeps (contract ctx) (fun g _ => ∀ results, g.1 = some results → Marked results g.2) (none, [])
      (ctx.storeTessera blocks encoder manifest) := by
  refine Keeps.perform trivial fun external _ => (offerBlocks_keeps ctx rfl _ blocks).bind fun g offered hg => ?_
  subst hg
  cases offered with
  | error e => exact fun _ hsome => nomatch hsome
  | ok =>
    cases encoder with
    | error e => exact fun _ hsome => nomatch hsome
    | ok =>
      refine Keeps.perform rfl fun results _ =>
        (settleResults_keeps ctx rfl results (List.Subset.refl _)).bind fun g _ ⟨hg, _, hmarked⟩ => ?_
      have hall : ∀ results, g.1 = some results → Marked results g.2 := by
        intro results' hsome
        rw [hg] at hsome
        cases hsome
        exact hmarked
      refine Keeps.perform trivial fun stored _ => ?_
      cases stored with
      | error e => exact hall
      | ok =>
        refine Keeps.perform trivial fun closest _ => (spread_keeps ctx hg _ closest).bind fun g' _ hg' => ?_
        subst hg'
        refine (spread_keeps ctx hg _ closest).bind fun g' _ hg' => ?_
        subst hg'
        exact hall

end

/-! ## The variables of a store -/

/-- How the requests end of which a handle is kept. -/
def resultsOf (ends : Nat → RpcEnd) (rpcs : List Rpc) : List (NodeId × RpcEnd) :=
  (rpcs.zipIdx.filter fun r => r.1.hasHandle).map fun r => (r.1.peerId, ends r.2)

section

variable {ends rpc : Nat → RpcEnd} {rpcs : List Rpc}

theorem mem_resultsOf {p : NodeId} {e : RpcEnd} :
    (p, e) ∈ resultsOf rpc rpcs ↔ ∃ i r, rpcs[i]? = some r ∧ r.hasHandle ∧ r.peerId = p ∧ rpc i = e := by
  simp only [resultsOf, List.mem_map, List.mem_filter, Prod.exists, List.mk_mem_zipIdx_iff_getElem?, Prod.mk.injEq]
  constructor
  · rintro ⟨r, i, ⟨hi, hhandle⟩, hpeer, hend⟩
    exact ⟨i, r, hi, hhandle, hpeer, hend⟩
  · rintro ⟨i, r, hi, hhandle, hpeer, hend⟩
    exact ⟨r, i, ⟨hi, hhandle⟩, hpeer, hend⟩

theorem resultsOf_congr (h : ∀ i r, rpcs[i]? = some r → r.hasHandle → ends i = rpc i) :
    resultsOf ends rpcs = resultsOf rpc rpcs := by
  refine List.map_congr_left fun r hr => ?_
  obtain ⟨hmem, hhandle⟩ := List.mem_filter.mp hr
  rw [h r.2 r.1 (List.mk_mem_zipIdx_iff_getElem?.mp hmem) hhandle]

theorem resultsOf_append {r : Rpc} (h : r.hasHandle = false) :
    resultsOf rpc (rpcs ++ [r]) = resultsOf rpc rpcs := by
  simp [resultsOf, List.zipIdx_append, h]

end

/-- Where the requests end as `rpc` says. -/
structure Settled (ctx : HandlerContext) (rpc : Nat → RpcEnd) (s : StoreVars) : Prop where
  before : s.results = none → s.failedPeers = [] ∧ ∀ r ∈ s.rpcs, r.hasHandle
  after : ∀ results, s.results = some results → results = resultsOf rpc s.rpcs ∧
    ∀ p ∈ s.failedPeers, ∃ e, (p, e) ∈ results ∧ e ≠ .response (.putChunkResponse true)
  permits : ∀ r ∈ s.rpcs, r.hasHandle → 0 < ctx.config.alpha

/-- What the store does, it does not take back, and after the join it keeps no more handles. -/
structure Grows (s s' : StoreVars) : Prop where
  rpcs : ∃ more, s'.rpcs = s.rpcs ++ more ∧ (s.results.isSome → ∀ r ∈ more, r.hasHandle = false)
  results : ∀ results, s.results = some results → s'.results = some results

theorem Grows.of_rpcs {s s' : StoreVars} (h : s'.rpcs = s.rpcs)
    (hresults : ∀ results, s.results = some results → s'.results = some results) : Grows s s' :=
  ⟨⟨[], by rw [h, List.append_nil], by rintro _ _ ⟨⟩⟩, hresults⟩

theorem Grows.refl (s : StoreVars) : Grows s s := .of_rpcs rfl fun _ h => h

theorem Grows.trans {s₁ s₂ s₃ : StoreVars} (h : Grows s₁ s₂) (h' : Grows s₂ s₃) : Grows s₁ s₃ := by
  obtain ⟨more, hmore, hnone⟩ := h.rpcs
  obtain ⟨more', hmore', hnone'⟩ := h'.rpcs
  refine ⟨⟨more ++ more', by rw [hmore', hmore, List.append_assoc], fun hsome r hr => ?_⟩, fun results hresults =>
    h'.results results (h.results results hresults)⟩
  rcases List.mem_append.mp hr with hr | hr
  · exact hnone hsome r hr
  · obtain ⟨results, hresults⟩ := Option.isSome_iff_exists.mp hsome
    exact hnone' (by rw [h.results results hresults]; rfl) r hr

section

variable {s s' : StoreVars} {i : Nat} {r : Rpc}

theorem Grows.getElem? (h : Grows s s') (hi : s.rpcs[i]? = some r) : s'.rpcs[i]? = some r := by
  obtain ⟨more, hmore, -⟩ := h.rpcs
  rw [hmore, List.getElem?_append_left (List.getElem?_eq_some_iff.mp hi).1, hi]

theorem Grows.old (h : Grows s s') (hsome : s.results.isSome) (hi : s'.rpcs[i]? = some r) (hhandle : r.hasHandle) :
    s.rpcs[i]? = some r := by
  obtain ⟨more, hmore, hnone⟩ := h.rpcs
  rw [hmore, List.getElem?_append] at hi
  split at hi
  · exact hi
  · have hno := hnone hsome r (List.mem_of_getElem? hi)
    rw [hhandle] at hno
    cases hno

end

section

variable {ctx : HandlerContext} {rpc : Nat → RpcEnd} {s : StoreVars}

theorem apply_settled {e : StoreOp} (howes : (contract ctx).owes (s.results, s.failedPeers) e)
    (h : Settled ctx rpc s) (i : StoreInput) :
    ((e.apply ctx rpc i s).2.results, (e.apply ctx rpc i s).2.failedPeers) =
        (contract ctx).next (s.results, s.failedPeers) e (e.apply ctx rpc i s).1 ∧
      Settled ctx rpc (e.apply ctx rpc i s).2 ∧ Grows s (e.apply ctx rpc i s).2 := by
  cases e with
  | node e => exact ⟨rfl, ⟨h.before, h.after, h.permits⟩, .of_rpcs rfl fun _ hsome => hsome⟩
  | isFailed peerId => exact ⟨rfl, h, Grows.refl _⟩
  | spawn r =>
    obtain ⟨hhandle, halpha⟩ := howes
    have hno (hsome : s.results.isSome) : r.hasHandle = false := by
      rw [hhandle, Option.isNone_eq_false_iff]
      exact hsome
    refine ⟨rfl, ⟨fun hnone => ?_, fun results hsome => ?_, fun r' hr' => ?_⟩, ⟨[r], rfl, ?_⟩, fun _ hsome => hsome⟩
    · obtain ⟨hfailed, hall⟩ := h.before hnone
      refine ⟨hfailed, fun r' hr' => ?_⟩
      rcases List.mem_append.mp hr' with hr' | hr'
      · exact hall r' hr'
      · rw [List.mem_singleton.mp hr', hhandle]
        exact Option.isNone_iff_eq_none.mpr hnone
    · change s.results = some results at hsome
      change results = resultsOf rpc (s.rpcs ++ [r]) ∧ _
      rw [resultsOf_append (hno (by rw [hsome]; rfl))]
      exact h.after results hsome
    · rcases List.mem_append.mp hr' with hr' | hr'
      · exact h.permits r' hr'
      · rw [List.mem_singleton.mp hr']
        exact halpha
    · intro hsome r' hr'
      rw [List.mem_singleton.mp hr']
      exact hno hsome
  | joinAll =>
    have hnone : s.results = none := howes
    refine ⟨rfl, ⟨(by rintro ⟨⟩), fun results hsome => ?_, h.permits⟩, .of_rpcs rfl fun results hsome => ?_⟩
    · cases hsome
      refine ⟨rfl, fun p hp => ?_⟩
      change p ∈ s.failedPeers at hp
      rw [(h.before hnone).1] at hp
      cases hp
    · rw [hnone] at hsome
      cases hsome
  | markFailed peerId =>
    obtain ⟨results, e, hsome, hmem, he⟩ := howes
    refine ⟨rfl, ⟨fun hnone => ?_, fun results' hsome' => ?_, h.permits⟩, .of_rpcs rfl fun _ hsome => hsome⟩
    · change s.results = none at hnone
      change s.results = some results at hsome
      rw [hsome] at hnone
      cases hnone
    · change s.results = some results' at hsome'
      obtain ⟨heq, hfailed⟩ := h.after results' hsome'
      refine ⟨heq, fun p hp => ?_⟩
      rcases List.mem_insert_iff.mp hp with rfl | hp
      · change s.results = some results at hsome
        rw [hsome] at hsome'
        cases hsome'
        exact ⟨e, hmem, he⟩
      · exact hfailed p hp

theorem exec_settled {α : Type} {Q : Option (List (NodeId × RpcEnd)) × List NodeId → α → Prop} {t : StoreTask α}
    (ht : Keeps (contract ctx) Q (s.results, s.failedPeers) t) (h : Settled ctx rpc s) (inputs : Nat → StoreInput)
    (n : Nat) :
    let last := exec (StoreOp.apply ctx rpc) inputs n t s
    Settled ctx rpc last.2 ∧ Grows s last.2 ∧ Q (last.2.results, last.2.failedPeers) last.1 := by
  have hstep (g) (e : StoreOp) (n : Nat) (s' : StoreVars) (howes : (contract ctx).owes g e)
      (hJ : g = (s'.results, s'.failedPeers) ∧ Settled ctx rpc s' ∧ Grows s s') :
      True ∧ (contract ctx).next g e (e.apply ctx rpc (inputs n) s').1 =
          ((e.apply ctx rpc (inputs n) s').2.results, (e.apply ctx rpc (inputs n) s').2.failedPeers) ∧
        Settled ctx rpc (e.apply ctx rpc (inputs n) s').2 ∧ Grows s (e.apply ctx rpc (inputs n) s').2 := by
    obtain ⟨rfl, hs', hgrows⟩ := hJ
    obtain ⟨hnext, hsettled, hstep⟩ := apply_settled howes hs' (inputs n)
    exact ⟨trivial, hnext.symm, hsettled, hgrows.trans hstep⟩
  obtain ⟨g, ⟨rfl, hsettled, hgrows⟩, hQ⟩ := exec_keeps hstep ht ⟨rfl, h, Grows.refl s⟩ n
  exact ⟨hsettled, hgrows, hQ⟩

end

/-! ## The store and its requests -/

section

variable (ctx : HandlerContext) (inputs : Nat → StoreInput) (rpc : Nat → RpcEnd)

/-- What the store ends with, in whatever order its requests end. -/
def finalVars (blocks : List (List (Hash × Bytes))) (encoder : Outcome Unit) (manifest : Hash × Bytes)
    (node : NodeState) : StoreVars :=
  (exec (StoreOp.apply ctx rpc) inputs 0 (ctx.storeTessera blocks encoder manifest) ⟨node, [], [], none⟩).2

/-- A store on its way to `final`. -/
structure Inv (final : StoreVars) (s : StoreRun) : Prop where
  vars : Settled ctx rpc s.vars
  kept : Keeps (contract ctx) (fun g _ => ∀ results, g.1 = some results → Marked results g.2)
    (s.vars.results, s.vars.failedPeers) s.task
  rest : (exec (StoreOp.apply ctx rpc) inputs s.count s.task s.vars).2 = final
  ended : ∀ i e, s.status i = .ended e → e = rpc i ∧ ∃ r, s.vars.rpcs[i]? = some r ∧
    .ended r.peerId e ∈ s.log ∧ (e = .timedOut → r.hasHandle ∧ final.results.isSome)
  logged : ∀ p e, .ended p e ∈ s.log → ∃ i r, s.vars.rpcs[i]? = some r ∧ r.peerId = p ∧ s.status i = .ended e
  joined : s.vars.results.isSome → ∀ i r, s.vars.rpcs[i]? = some r → r.hasHandle → s.isEnded i

end

/-- The store after its next operation. -/
def performed (ctx : HandlerContext) (inputs : Nat → StoreInput) (s : StoreRun) (e : StoreOp)
    (k : e.Result → StoreTask (Outcome Unit)) : StoreRun :=
  { s with
    task := k (e.apply ctx s.endOf (inputs s.count) s.vars).1
    count := s.count + 1
    vars := (e.apply ctx s.endOf (inputs s.count) s.vars).2 }

theorem isEnded_iff {s : StoreRun} {i : Nat} : s.isEnded i ↔ ∃ e, s.status i = .ended e := by
  unfold StoreRun.isEnded
  split
  next e h => simp [h]
  next h =>
    constructor
    · rintro ⟨⟩
    · rintro ⟨e, he⟩
      exact absurd he (h e)

theorem ne_of_ended {s : StoreRun} {i j : Nat} {e : RpcEnd} (hended : s.status j = .ended e)
    (hopen : s.isEnded i = false) : j ≠ i := by
  rintro rfl
  rw [isEnded_iff.mpr ⟨e, hended⟩] at hopen
  cases hopen

theorem allEnded_iff {s : StoreRun} :
    s.allEnded ↔ ∀ i r, s.vars.rpcs[i]? = some r → r.hasHandle → s.isEnded i := by
  simp only [StoreRun.allEnded, List.all_eq_true, Prod.forall, List.mk_mem_zipIdx_iff_getElem?, Bool.or_eq_true,
    Bool.not_eq_true']
  constructor
  · intro h i r hi hhandle
    rcases h r i hi with hno | hended
    · rw [hhandle] at hno
      cases hno
    · exact hended
  · intro h r i hi
    cases hhandle : r.hasHandle with
    | false => exact Or.inl rfl
    | true => exact Or.inr (h i r hi hhandle)

section

variable {ctx : HandlerContext} {inputs : Nat → StoreInput} {rpc : Nat → RpcEnd} {final : StoreVars} {s : StoreRun}
  {i : Nat} {r : Rpc}

theorem Inv.settles (h : Inv ctx inputs rpc final s) : Settled ctx rpc final ∧ Grows s.vars final ∧
    ∀ results, final.results = some results → Marked results final.failedPeers := by
  have hfinal := exec_settled h.kept h.vars inputs s.count
  dsimp only at hfinal
  rwa [h.rest] at hfinal

theorem Inv.not_failed (h : Inv ctx inputs rpc final s) (hi : s.vars.rpcs[i]? = some r) (hhandle : r.hasHandle)
    (hopen : s.isEnded i = false) : s.vars.results = none ∧ s.vars.failedPeers = [] := by
  cases hresults : s.vars.results with
  | none => exact ⟨rfl, (h.vars.before hresults).1⟩
  | some results =>
    have hended := h.joined (by rw [hresults]; rfl) i r hi hhandle
    rw [hopen] at hended
    cases hended

/-- What one request does. -/
theorem Inv.setStatus (h : Inv ctx inputs rpc final s) (hi : s.vars.rpcs[i]? = some r) (hopen : s.isEnded i = false)
    {status : RpcStatus} {log : List RpcEvent}
    (hlog : (log = [] ∨ log = [.sent r.peerId]) ∧ (∀ e, status ≠ .ended e) ∨
      log = [.ended r.peerId (rpc i)] ∧ status = .ended (rpc i) ∧
        (rpc i = .timedOut → r.hasHandle ∧ final.results.isSome)) :
    Inv ctx inputs rpc final { s.setStatus i status with log := s.log ++ log } where
  vars := h.vars
  kept := h.kept
  rest := h.rest
  ended j e he := by
    change Function.update s.status i status j = .ended e at he
    by_cases hj : j = i
    · subst hj
      rw [Function.update_self] at he
      rcases hlog with ⟨-, hnot⟩ | ⟨rfl, rfl, htimed⟩
      · exact absurd he (hnot e)
      · cases he
        exact ⟨rfl, r, hi, List.mem_append_right _ (List.mem_singleton_self _), htimed⟩
    · rw [Function.update_of_ne hj] at he
      obtain ⟨hend, r', hj', hmem, htimed⟩ := h.ended j e he
      exact ⟨hend, r', hj', List.mem_append_left _ hmem, htimed⟩
  logged p e hevent := by
    rcases List.mem_append.mp hevent with hold | hnew
    · obtain ⟨j, r', hj, hpeer, hstatus⟩ := h.logged p e hold
      exact ⟨j, r', hj, hpeer, (Function.update_of_ne (ne_of_ended hstatus hopen) _ _).trans hstatus⟩
    · rcases hlog with ⟨rfl | rfl, -⟩ | ⟨rfl, rfl, -⟩
      · cases hnew
      · cases List.mem_singleton.mp hnew
      · cases List.mem_singleton.mp hnew
        exact ⟨i, r, hi, rfl, Function.update_self _ _ _⟩
  joined hsome j r' hj hhandle := by
    obtain ⟨e, he⟩ := isEnded_iff.mp (h.joined hsome j r' hj hhandle)
    exact isEnded_iff.mpr ⟨e, (Function.update_of_ne (ne_of_ended he hopen) _ _).trans he⟩

theorem Inv.send (h : Inv ctx inputs rpc final s) (hi : s.vars.rpcs[i]? = some r) (hopen : s.isEnded i = false) :
    Inv ctx inputs rpc final (s.send i r) :=
  h.setStatus hi hopen (Or.inl ⟨Or.inr rfl, by rintro e ⟨⟩⟩)

theorem Inv.wait (h : Inv ctx inputs rpc final s) (hi : s.vars.rpcs[i]? = some r) (hopen : s.isEnded i = false) :
    Inv ctx inputs rpc final (s.setStatus i .waiting) := by
  have hwait : Inv ctx inputs rpc final { s.setStatus i .waiting with log := s.log ++ [] } :=
    h.setStatus hi hopen (Or.inl ⟨Or.inl rfl, by rintro e ⟨⟩⟩)
  rw [List.append_nil] at hwait
  exact hwait

theorem Inv.finish (h : Inv ctx inputs rpc final s) (hi : s.vars.rpcs[i]? = some r) (hopen : s.isEnded i = false)
    (htimed : rpc i = .timedOut → r.hasHandle ∧ final.results.isSome) :
    Inv ctx inputs rpc final (s.finish i r (rpc i)) :=
  h.setStatus hi hopen (Or.inr ⟨rfl, rfl, htimed⟩)

/-- An operation of the store, where `join_all` has waited for all handles. -/
theorem Inv.perform (h : Inv ctx inputs rpc final s) {e : StoreOp} {k : e.Result → StoreTask (Outcome Unit)}
    (htask : s.task = .op e k) (hjoin : e = .joinAll → s.allEnded) :
    Inv ctx inputs rpc final (performed ctx inputs s e k) := by
  have hkept := h.kept
  have hrest := h.rest
  rw [htask] at hkept hrest
  have hends : e.apply ctx s.endOf (inputs s.count) s.vars = e.apply ctx rpc (inputs s.count) s.vars := by
    cases e with
    | joinAll =>
      have hresults : resultsOf s.endOf s.vars.rpcs = resultsOf rpc s.vars.rpcs := by
        refine resultsOf_congr fun i r hi hhandle => ?_
        obtain ⟨e, he⟩ := isEnded_iff.mp (allEnded_iff.mp (hjoin rfl) i r hi hhandle)
        rw [← (h.ended i e he).1, StoreRun.endOf, he]
      exact congrArg (fun results => (results, { s.vars with results := some results })) hresults
    | _ => rfl
  rw [performed, hends]
  obtain ⟨hnext, hsettled, hgrows⟩ := apply_settled hkept.1 h.vars (inputs s.count)
  refine ⟨hsettled, ?_, hrest, fun j e' he' => ?_, fun p e' hmem => ?_, fun hsome j r hj hhandle => ?_⟩
  · rw [hnext]
    exact hkept.2 _ trivial
  · obtain ⟨hend, r, hj, hmem, htimed⟩ := h.ended j e' he'
    exact ⟨hend, r, hgrows.getElem? hj, hmem, htimed⟩
  · obtain ⟨j, r, hj, hpeer, hstatus⟩ := h.logged p e' hmem
    exact ⟨j, r, hgrows.getElem? hj, hpeer, hstatus⟩
  · by_cases hjoined : s.vars.results.isSome
    · exact h.joined hjoined j r (hgrows.old hjoined hj hhandle) hhandle
    · cases e with
      | joinAll => exact allEnded_iff.mp (hjoin rfl) j r hj hhandle
      | _ => exact absurd hsome hjoined

/-- What the store has right after the join. -/
theorem Inv.after_join (h : Inv ctx inputs rpc final s) (hjoining : s.isJoining) :
    ∃ s' : StoreVars, s'.results.isSome ∧ s'.rpcs = s.vars.rpcs ∧ Grows s' final := by
  unfold StoreRun.isJoining at hjoining
  split at hjoining
  next k htask =>
    have hkept := h.kept
    have hrest := h.rest
    rw [htask] at hkept hrest
    obtain ⟨hnext, hsettled, -⟩ := apply_settled hkept.1 h.vars (inputs s.count)
    have hlast := exec_settled (hnext ▸ hkept.2 _ trivial) hsettled inputs (s.count + 1)
    rw [← hrest]
    exact ⟨(StoreOp.joinAll.apply ctx rpc (inputs s.count) s.vars).2, rfl, rfl, hlast.2.1⟩
  next => cases hjoining

theorem Inv.joining (h : Inv ctx inputs rpc final s) (hjoining : s.isJoining) : final.results.isSome := by
  obtain ⟨s', hsome, -, hgrows⟩ := h.after_join hjoining
  obtain ⟨results, hresults⟩ := Option.isSome_iff_exists.mp hsome
  exact Option.isSome_iff_exists.mpr ⟨results, hgrows.results results hresults⟩

/-- After the join no request was spawned of which a handle is kept. -/
theorem Inv.old (h : Inv ctx inputs rpc final s) (hstop : s.vars = final ∨ s.isJoining)
    (hi : final.rpcs[i]? = some r) (hhandle : r.hasHandle) : s.vars.rpcs[i]? = some r := by
  rcases hstop with hvars | hjoining
  · rwa [hvars]
  · obtain ⟨s', hsome, hrpcs, hgrows⟩ := h.after_join hjoining
    rw [← hrpcs]
    exact hgrows.old hsome hi hhandle

end

/-! ## Each step -/

section

variable {ctx : HandlerContext} {inputs : Nat → StoreInput} {rpc : Nat → RpcEnd} {final : StoreVars} {s : StoreRun}
  {i : Nat} {r : Rpc}

/-- What a request that has not ended does in a step. -/
inductive Moves (rpc : Nat → RpcEnd) (s : StoreRun) (i : Nat) (r : Rpc) : StoreRun → Prop
  | skipped (hhandle : r.hasHandle) (hfailed : r.peerId ∈ s.vars.failedPeers) (s' : StoreRun) : Moves rpc s i r s'
  | waits : Moves rpc s i r (s.setStatus i .waiting)
  | sends : Moves rpc s i r (s.send i r)
  | ends (htimed : rpc i = .timedOut → r.hasHandle ∧ s.isJoining) : Moves rpc s i r (s.finish i r (rpc i))

theorem advance_cases (ctx : HandlerContext) (rpc : Nat → RpcEnd) (s : StoreRun) (i : Nat) (r : Rpc) :
    s.advance ctx i r = s ∨ s.isEnded i = false ∧ Moves rpc s i r (s.advance ctx i r) := by
  unfold StoreRun.advance
  split
  next hstatus =>
    refine Or.inr ⟨by rw [StoreRun.isEnded, hstatus], ?_⟩
    split
    next hhandle =>
      split
      next hfailed => exact .skipped hhandle hfailed _
      next => exact .waits
    next => exact .sends
  next hstatus =>
    split
    next => exact Or.inr ⟨by rw [StoreRun.isEnded, hstatus], .sends⟩
    next => exact Or.inl rfl
  next => exact Or.inl rfl

theorem step_cases (ctx : HandlerContext) (inputs : Nat → StoreInput) (rpc : Nat → RpcEnd) (s : StoreRun)
    (a : StoreAction) :
    StoreRun.step ctx inputs rpc s a = s ∨
    (∃ e k, s.task = .op e k ∧ (e = .joinAll → s.allEnded) ∧
      StoreRun.step ctx inputs rpc s a = performed ctx inputs s e k) ∨
    ∃ i r, s.vars.rpcs[i]? = some r ∧ s.isEnded i = false ∧ Moves rpc s i r (StoreRun.step ctx inputs rpc s a) := by
  cases a with
  | store =>
    dsimp only [StoreRun.step]
    split
    next => exact Or.inl rfl
    next e k htask =>
      split
      next => exact Or.inl rfl
      next hready =>
        refine Or.inr (Or.inl ⟨e, k, htask, ?_, rfl⟩)
        rintro rfl
        rw [StoreRun.isJoining, htask] at hready
        simpa using hready
  | advance i =>
    dsimp only [StoreRun.step]
    split
    next r hi =>
      rcases advance_cases ctx rpc s i r with hsame | ⟨hopen, hmoves⟩
      · exact Or.inl hsame
      · exact Or.inr (Or.inr ⟨i, r, hi, hopen, hmoves⟩)
    next => exact Or.inl rfl
  | answer i =>
    dsimp only [StoreRun.step]
    split
    next r hi =>
      split
      next hsent =>
        exact Or.inr (Or.inr ⟨i, r, hi, by rw [StoreRun.isEnded, hsent.1], .ends fun htimed => absurd htimed hsent.2⟩)
      next => exact Or.inl rfl
    next => exact Or.inl rfl
  | timeout i =>
    dsimp only [StoreRun.step]
    split
    next r hi =>
      split
      next hover =>
        obtain ⟨hjoining, hhandle, hopen, htimed⟩ := hover
        have hends : Moves rpc s i r (s.finish i r (rpc i)) := .ends fun _ => ⟨hhandle, hjoining⟩
        rw [htimed] at hends
        exact Or.inr (Or.inr ⟨i, r, hi, hopen, hends⟩)
      next => exact Or.inl rfl
    next => exact Or.inl rfl

theorem step_inv (h : Inv ctx inputs rpc final s) (a : StoreAction) :
    Inv ctx inputs rpc final (StoreRun.step ctx inputs rpc s a) := by
  rcases step_cases ctx inputs rpc s a with
    hsame | ⟨e, k, htask, hjoin, hstep⟩ | ⟨i, r, hi, hopen, hmoves⟩
  · rwa [hsame]
  · rw [hstep]
    exact h.perform htask hjoin
  · generalize StoreRun.step ctx inputs rpc s a = s' at hmoves ⊢
    cases hmoves with
    | skipped hhandle hfailed =>
      rw [(h.not_failed hi hhandle hopen).2] at hfailed
      cases hfailed
    | waits => exact h.wait hi hopen
    | sends => exact h.send hi hopen
    | ends htimed => exact h.finish hi hopen fun heq => ⟨(htimed heq).1, h.joining (htimed heq).2⟩

end

theorem start_inv (ctx : HandlerContext) (inputs : Nat → StoreInput) (rpc : Nat → RpcEnd)
    (blocks : List (List (Hash × Bytes))) (encoder : Outcome Unit) (manifest : Hash × Bytes) (node : NodeState) :
    Inv ctx inputs rpc (finalVars ctx inputs rpc blocks encoder manifest node)
      (.start (ctx.storeTessera blocks encoder manifest) node) where
  vars := ⟨fun _ => ⟨rfl, by rintro _ ⟨⟩⟩, by rintro _ ⟨⟩, by rintro _ ⟨⟩⟩
  kept := storeTessera_keeps ctx blocks encoder manifest
  rest := rfl
  ended := by rintro _ _ ⟨⟩
  logged := by rintro _ _ ⟨⟩
  joined := by rintro ⟨⟩

/-! ## Failed peers -/

/-- The request completes with an error. -/
def isError : RpcEnd → Bool
  | .response _ => false
  | _ => true

def isPositive : RpcEnd → Bool
  | .response (.putChunkResponse ok) => ok
  | .response (.addProviderResponse ok) => ok
  | _ => false

def resends : RpcEvent → RpcEvent → Bool
  | .ended p e, .sent q => isError e && p = q
  | _, _ => false

/-- Nothing is sent to a peer after a request to it has ended with an error, and each peer that is marked as
failed has not answered all its requests positively. -/
structure Spares (s : StoreRun) : Prop where
  quiet : s.log.Pairwise fun a b => ¬ resends a b
  marks : ∀ p ∈ s.vars.failedPeers, ∃ e, .ended p e ∈ s.log ∧ ¬ isPositive e

/-- Each peer with a request that ends with an error has no other one, chunk requests apart if that was about
the manifest. Each peer that accepts an announcement of a chunk gives another chunk request no positive
answer, if the results are accounted. -/
structure Apart (rpc : Nat → RpcEnd) (final : StoreVars) : Prop where
  alone : ∀ i r j r', final.rpcs[i]? = some r → final.rpcs[j]? = some r' → isError (rpc i) →
    (rpc i = .timedOut → r.hasHandle ∧ final.results.isSome) → r.peerId = r'.peerId →
    (r'.hasHandle → r.hasHandle) → i = j
  refused : final.results.isSome → ∀ i r, final.rpcs[i]? = some r → r.hasHandle →
    rpc i = .response (.addProviderResponse true) →
    ∃ j r', final.rpcs[j]? = some r' ∧ r'.hasHandle ∧ r'.peerId = r.peerId ∧ ¬ isPositive (rpc j)

section

variable {ctx : HandlerContext} {inputs : Nat → StoreInput} {rpc : Nat → RpcEnd} {final : StoreVars} {s : StoreRun}
  {i : Nat} {r : Rpc}

theorem Inv.not_resent (h : Inv ctx inputs rpc final s) (hapart : Apart rpc final) (hi : s.vars.rpcs[i]? = some r)
    (hopen : s.isEnded i = false) {a : RpcEvent} (ha : a ∈ s.log) : ¬ resends a (.sent r.peerId) := by
  cases a with
  | sent p => exact Bool.false_ne_true
  | ended p e =>
    intro hresends
    obtain ⟨herror, hpeer⟩ : isError e ∧ p = r.peerId := by simpa [resends] using hresends
    obtain ⟨j, r', hj, hpeer', hstatus⟩ := h.logged p e ha
    obtain ⟨hend, r'', hj', -, htimed⟩ := h.ended j e hstatus
    rw [hj, Option.some_inj] at hj'
    subst hend hj'
    have hgrows := h.settles.2.1
    have hhandle : r.hasHandle → r'.hasHandle := by
      intro hhandle
      have hnone := (h.not_failed hi hhandle hopen).1
      exact (h.vars.before hnone).2 r' (List.mem_of_getElem? hj)
    obtain rfl := hapart.alone j r' i r (hgrows.getElem? hj) (hgrows.getElem? hi) herror htimed
      (hpeer'.trans hpeer) hhandle
    exact ne_of_ended hstatus hopen rfl

theorem step_quiet (h : Inv ctx inputs rpc final s) (hapart : Apart rpc final)
    (hquiet : s.log.Pairwise fun a b => ¬ resends a b) (a : StoreAction) :
    (StoreRun.step ctx inputs rpc s a).log.Pairwise fun a b => ¬ resends a b := by
  rcases step_cases ctx inputs rpc s a with
    hsame | ⟨e, k, -, -, hstep⟩ | ⟨i, r, hi, hopen, hmoves⟩
  · rwa [hsame]
  · rw [hstep]
    exact hquiet
  · generalize StoreRun.step ctx inputs rpc s a = s' at hmoves ⊢
    cases hmoves with
    | skipped hhandle hfailed =>
      rw [(h.not_failed hi hhandle hopen).2] at hfailed
      cases hfailed
    | waits => exact hquiet
    | sends =>
      refine List.pairwise_append.mpr ⟨hquiet, List.pairwise_singleton _ _, fun a ha b hb => ?_⟩
      rw [List.mem_singleton.mp hb]
      exact h.not_resent hapart hi hopen ha
    | ends =>
      refine List.pairwise_append.mpr ⟨hquiet, List.pairwise_singleton _ _, fun a ha b hb => ?_⟩
      rw [List.mem_singleton.mp hb]
      cases a <;> exact Bool.false_ne_true

theorem Inv.logged_of_result (h : Inv ctx inputs rpc final s) {results : List (NodeId × RpcEnd)}
    (hsome : s.vars.results = some results) {p : NodeId} {e : RpcEnd} (hmem : (p, e) ∈ results) :
    .ended p e ∈ s.log := by
  rw [(h.vars.after results hsome).1, mem_resultsOf] at hmem
  obtain ⟨i, r, hi, hhandle, rfl, rfl⟩ := hmem
  obtain ⟨e, he⟩ := isEnded_iff.mp (h.joined (by rw [hsome]; rfl) i r hi hhandle)
  obtain ⟨rfl, r', hi', hlog, -⟩ := h.ended i e he
  rw [hi, Option.some_inj] at hi'
  rwa [hi']

theorem Inv.marks (h : Inv ctx inputs rpc final s) (hapart : Apart rpc final) :
    ∀ p ∈ s.vars.failedPeers, ∃ e, .ended p e ∈ s.log ∧ ¬ isPositive e := by
  intro p hp
  cases hresults : s.vars.results with
  | none =>
    rw [(h.vars.before hresults).1] at hp
    cases hp
  | some results =>
    obtain ⟨e, hmem, he⟩ := (h.vars.after results hresults).2 p hp
    by_cases hpositive : isPositive e
    · -- The accounting takes it for a rejection.
      obtain rfl : e = .response (.addProviderResponse true) := by
        unfold isPositive at hpositive
        split at hpositive
        next => exact absurd (by rw [hpositive]) he
        next => rw [hpositive]
        next => cases hpositive
      obtain ⟨hfinal, hgrows, -⟩ := h.settles
      have hlast := hgrows.results results hresults
      obtain ⟨hall, -⟩ := hfinal.after results hlast
      rw [hall, mem_resultsOf] at hmem
      obtain ⟨i, r, hi, hhandle, rfl, hend⟩ := hmem
      obtain ⟨j, r', hj, hhandle', hpeer, hnot⟩ := hapart.refused (by rw [hlast]; rfl) i r hi hhandle hend
      refine ⟨rpc j, h.logged_of_result hresults ?_, hnot⟩
      rw [hall]
      exact mem_resultsOf.mpr ⟨j, r', hj, hhandle', hpeer, rfl⟩
    · exact ⟨e, h.logged_of_result hresults hmem, hpositive⟩

theorem run_spares (h : Inv ctx inputs rpc final s) (hapart : Apart rpc final) (hlog : s.log = [])
    (actions : List StoreAction) : Spares (run (StoreRun.step ctx inputs rpc) s actions) := by
  have hstep (s) (a : StoreAction)
      (hs : Inv ctx inputs rpc final s ∧ s.log.Pairwise fun a b => ¬ resends a b) (_ : True) :
      Inv ctx inputs rpc final (StoreRun.step ctx inputs rpc s a) ∧
        (StoreRun.step ctx inputs rpc s a).log.Pairwise fun a b => ¬ resends a b :=
    ⟨step_inv hs.1 a, step_quiet hs.1 hapart hs.2 a⟩
  obtain ⟨hinv, hquiet⟩ := run_inv hstep ⟨h, by rw [hlog]; exact .nil⟩
    (meets_of_forall (fun _ _ => trivial) s actions)
  exact ⟨hquiet, hinv.marks hapart⟩

end

/-! ## Orders in which the requests end -/

section

variable {ctx : HandlerContext} {inputs : Nat → StoreInput} {rpc : Nat → RpcEnd} {final : StoreVars} {s s' : StoreRun}
  {i : Nat} {r : Rpc}

theorem Inv.reaches (h : Inv ctx inputs rpc final s) (hreach : Reaches (StoreRun.step ctx inputs rpc) s s') :
    Inv ctx inputs rpc final s' := by
  obtain ⟨actions, rfl⟩ := hreach
  have hstep (s) (a : StoreAction) (hs : Inv ctx inputs rpc final s) (_ : True) :
      Inv ctx inputs rpc final (StoreRun.step ctx inputs rpc s a) := step_inv hs a
  exact run_inv hstep h (meets_of_forall (fun _ _ => trivial) s actions)

theorem step_store {e : StoreOp} {k : e.Result → StoreTask (Outcome Unit)} (htask : s.task = .op e k)
    (hjoin : e = .joinAll → s.allEnded) :
    StoreRun.step ctx inputs rpc s .store = performed ctx inputs s e k := by
  have hready : (s.isJoining && !s.allEnded) = false := by
    cases e with
    | joinAll => rw [hjoin rfl, Bool.not_true, Bool.and_false]
    | _ => rw [StoreRun.isJoining, htask, Bool.false_and]
  simp only [StoreRun.step, htask, hready]
  rfl

theorem step_waits (hi : s.vars.rpcs[i]? = some r) (hhandle : r.hasHandle) (hnew : s.status i = .spawned)
    (hfailed : s.vars.failedPeers = []) :
    StoreRun.step ctx inputs rpc s (.advance i) = s.setStatus i .waiting := by
  simp [StoreRun.step, hi, StoreRun.advance, hnew, hhandle, hfailed]

theorem step_sends (hi : s.vars.rpcs[i]? = some r) (hwaiting : s.status i = .waiting)
    (hfree : s.inFlight < ctx.config.alpha) : StoreRun.step ctx inputs rpc s (.advance i) = s.send i r := by
  simp [StoreRun.step, hi, StoreRun.advance, hwaiting, hfree]

theorem step_sends_at_once (hi : s.vars.rpcs[i]? = some r) (hno : r.hasHandle = false) (hnew : s.status i = .spawned) :
    StoreRun.step ctx inputs rpc s (.advance i) = s.send i r := by
  simp [StoreRun.step, hi, StoreRun.advance, hnew, hno]

theorem step_answers (hi : s.vars.rpcs[i]? = some r) (hsent : s.status i = .sent) (hrpc : rpc i ≠ .timedOut) :
    StoreRun.step ctx inputs rpc s (.answer i) = s.finish i r (rpc i) := by
  simp [StoreRun.step, hi, hsent, hrpc]

theorem step_times_out (hi : s.vars.rpcs[i]? = some r) (hhandle : r.hasHandle) (hopen : s.isEnded i = false)
    (hrpc : rpc i = .timedOut) (hjoining : s.isJoining) :
    StoreRun.step ctx inputs rpc s (.timeout i) = s.finish i r (rpc i) := by
  simp [StoreRun.step, hi, hhandle, hopen, hrpc, hjoining]

theorem inFlight_eq_zero (h : ∀ j, s.status j ≠ .sent) : s.inFlight = 0 := by
  refine List.countP_eq_zero.mpr fun r _ => ?_
  simp [h r.2]

theorem apply_results {e : StoreOp} (he : e ≠ .joinAll) (ends : Nat → RpcEnd) (i : StoreInput) (s : StoreVars) :
    (e.apply ctx ends i s).2.results = s.results := by
  cases e with
  | joinAll => exact absurd rfl he
  | _ => rfl

/-- The store goes on until it returns or waits for its handles. -/
theorem Inv.to_join (h : Inv ctx inputs rpc final s) (hnone : s.vars.results = none) :
    ∃ s', Reaches (StoreRun.step ctx inputs rpc) s s' ∧ s'.status = s.status ∧ s'.vars.results = none ∧
      (s'.vars = final ∨ s'.isJoining) := by
  generalize htask : s.task = t
  induction t generalizing s with
  | ret a =>
    have hrest := h.rest
    rw [htask] at hrest
    exact ⟨s, .refl s, rfl, hnone, Or.inl hrest⟩
  | op e k ih =>
    by_cases hjoin : e = .joinAll
    · subst hjoin
      exact ⟨s, .refl s, rfl, hnone, Or.inr (by rw [StoreRun.isJoining, htask])⟩
    · have hinv := h.perform htask fun heq => absurd heq hjoin
      obtain ⟨s', hreach, hstatus, hrest⟩ := ih _ hinv ((apply_results hjoin _ _ _).trans hnone) rfl
      exact ⟨s', (Reaches.single (step_store htask fun heq => absurd heq hjoin)).trans hreach, hstatus, hrest⟩

/-- The store goes on to its end. -/
theorem Inv.to_end (h : Inv ctx inputs rpc final s) (hready : s.vars.results = none → s.isJoining ∧ s.allEnded) :
    ∃ s', Reaches (StoreRun.step ctx inputs rpc) s s' ∧ s'.status = s.status ∧ s'.vars = final := by
  generalize htask : s.task = t
  induction t generalizing s with
  | ret a =>
    have hrest := h.rest
    rw [htask] at hrest
    exact ⟨s, .refl s, rfl, hrest⟩
  | op e k ih =>
    have hkept := h.kept
    rw [htask] at hkept
    have hjoin : e = .joinAll → s.allEnded := by
      rintro rfl
      exact (hready hkept.1).2
    have hsome : (performed ctx inputs s e k).vars.results ≠ none := by
      by_cases he : e = .joinAll
      · subst he
        exact Option.some_ne_none _
      · rw [show (performed ctx inputs s e k).vars.results = s.vars.results from apply_results he _ _ _]
        intro hnone
        have hjoining := (hready hnone).1
        rw [StoreRun.isJoining, htask] at hjoining
        split at hjoining
        next heq => exact he (by injection heq)
        next => cases hjoining
    obtain ⟨s', hreach, hrest⟩ := ih _ (h.perform htask hjoin) (fun hnone => absurd hnone hsome) rfl
    exact ⟨s', (Reaches.single (step_store htask hjoin)).trans hreach, hrest⟩

/-- While nothing is in flight, a request gets a permit. -/
theorem Inv.to_sent (h : Inv ctx inputs rpc final s) (hi : s.vars.rpcs[i]? = some r) (hhandle : r.hasHandle)
    (hnew : s.status i = .spawned) (hidle : ∀ j, s.status j ≠ .sent) :
    Reaches (StoreRun.step ctx inputs rpc) s ((s.setStatus i .waiting).send i r) := by
  have hopen : s.isEnded i = false := by rw [StoreRun.isEnded, hnew]
  have hwaiting : (s.setStatus i .waiting).status i = .waiting := Function.update_self _ _ _
  have hfree : (s.setStatus i .waiting).inFlight < ctx.config.alpha := by
    rw [inFlight_eq_zero fun j => ?_]
    · exact h.vars.permits r (List.mem_of_getElem? hi) hhandle
    · by_cases hj : j = i
      · subst hj
        rw [hwaiting]
        exact RpcStatus.noConfusion
      · exact (Function.update_of_ne hj _ _).trans_ne (hidle j)
  exact (Reaches.single (step_waits hi hhandle hnew (h.not_failed hi hhandle hopen).2)).trans
    (Reaches.single (step_sends (s := s.setStatus i .waiting) hi hwaiting hfree))

/-- While nothing is in flight, a request goes from its start to its end. -/
theorem Inv.to_ended (h : Inv ctx inputs rpc final s) (hi : s.vars.rpcs[i]? = some r) (hhandle : r.hasHandle)
    (hnew : s.status i = .spawned) (hidle : ∀ j, s.status j ≠ .sent)
    (htimed : rpc i = .timedOut → s.isJoining) :
    ∃ s', Reaches (StoreRun.step ctx inputs rpc) s s' ∧ s'.task = s.task ∧ s'.vars = s.vars ∧
      s'.status = Function.update s.status i (.ended (rpc i)) := by
  by_cases hrpc : rpc i = .timedOut
  · have hopen : s.isEnded i = false := by rw [StoreRun.isEnded, hnew]
    exact ⟨_, .single (step_times_out hi hhandle hopen hrpc (htimed hrpc)), rfl, rfl, rfl⟩
  · have hsent : ((s.setStatus i .waiting).send i r).status i = .sent := Function.update_self _ _ _
    refine ⟨((s.setStatus i .waiting).send i r).finish i r (rpc i), ?_, rfl, rfl, ?_⟩
    · exact (h.to_sent hi hhandle hnew hidle).trans
        (Reaches.single (step_answers (s := (s.setStatus i .waiting).send i r) hi hsent hrpc))
    · change Function.update (Function.update (Function.update s.status i .waiting) i .sent) i (.ended (rpc i)) = _
      rw [Function.update_idem, Function.update_idem]

/-- One after the other, all handles end. -/
theorem Inv.to_all_ended (h : Inv ctx inputs rpc final s) (hjoining : s.isJoining) (hnone : s.vars.results = none)
    (hnew : ∀ j, s.status j = .spawned) (n : Nat) (hn : n ≤ s.vars.rpcs.length) :
    ∃ s', Reaches (StoreRun.step ctx inputs rpc) s s' ∧ s'.task = s.task ∧ s'.vars = s.vars ∧
      (∀ j < n, s'.isEnded j) ∧ ∀ j, n ≤ j → s'.status j = .spawned := by
  induction n with
  | zero => exact ⟨s, .refl s, rfl, rfl, by rintro _ ⟨⟩, fun j _ => hnew j⟩
  | succ n ih =>
    obtain ⟨s', hreach, htask, hvars, hended, hrest⟩ := ih (by omega)
    have hi : s'.vars.rpcs[n]? = some s.vars.rpcs[n] := by
      rw [hvars]
      exact List.getElem?_eq_getElem hn
    have hhandle := (h.vars.before hnone).2 _ (List.getElem_mem hn)
    have hidle : ∀ j, s'.status j ≠ .sent := by
      intro j hsent
      rcases Nat.lt_or_ge j n with hj | hj
      · obtain ⟨e, he⟩ := isEnded_iff.mp (hended j hj)
        rw [he] at hsent
        cases hsent
      · rw [hrest j hj] at hsent
        cases hsent
    have hjoining' : s'.isJoining := by
      unfold StoreRun.isJoining at hjoining ⊢
      rwa [htask]
    obtain ⟨s'', hreach', htask', hvars', hstatus⟩ :=
      (h.reaches hreach).to_ended hi hhandle (hrest n (Nat.le_refl n)) hidle fun _ => hjoining'
    refine ⟨s'', hreach.trans hreach', htask'.trans htask, hvars'.trans hvars, fun j hj => ?_, fun j hj => ?_⟩
    · by_cases hjn : j = n
      · subst hjn
        exact isEnded_iff.mpr ⟨_, by rw [hstatus, Function.update_self]⟩
      · obtain ⟨e, he⟩ := isEnded_iff.mp (hended j (by omega))
        exact isEnded_iff.mpr ⟨e, by rw [hstatus, Function.update_of_ne hjn, he]⟩
    · rw [hstatus, Function.update_of_ne (by omega)]
      exact hrest j (by omega)

theorem send_not_spares {e : RpcEnd} {p : NodeId} (hlog : .ended p e ∈ s.log) (herror : isError e)
    (hpeer : p = r.peerId) (i : Nat) : ¬ Spares (s.send i r) := by
  intro h
  obtain ⟨-, -, hcross⟩ := List.pairwise_append.mp h.quiet
  refine hcross _ hlog _ (List.mem_singleton_self _) ?_
  simp [resends, herror, hpeer]

end

section

variable {ctx : HandlerContext} {inputs : Nat → StoreInput} {rpc : Nat → RpcEnd} {final : StoreVars} {s : StoreRun}
  (h : Inv ctx inputs rpc final s) (hnone : s.vars.results = none) (hnew : ∀ j, s.status j = .spawned)
  (hspares : ∀ s', Reaches (StoreRun.step ctx inputs rpc) s s' → Spares s')

include h hnone hnew

/-- The store has ended and the requests about the manifest are not sent yet. -/
theorem exists_last (hsome : final.results.isSome) : ∃ s', Reaches (StoreRun.step ctx inputs rpc) s s' ∧
    s'.vars = final ∧ ∀ (j : Nat) (r : Rpc), final.rpcs[j]? = some r →
      (r.hasHandle → s'.isEnded j) ∧ (r.hasHandle = false → s'.status j = .spawned) := by
  obtain ⟨s₁, hreach₁, hstatus₁, hnone₁, hstop⟩ := h.to_join hnone
  have hinv₁ := h.reaches hreach₁
  have hjoining : s₁.isJoining := by
    rcases hstop with hvars | hjoining
    · rw [hvars] at hnone₁
      rw [hnone₁] at hsome
      cases hsome
    · exact hjoining
  have hnew₁ : ∀ j, s₁.status j = .spawned := by rwa [hstatus₁]
  obtain ⟨s₂, hreach₂, htask₂, hvars₂, hended, hrest⟩ :=
    hinv₁.to_all_ended hjoining hnone₁ hnew₁ s₁.vars.rpcs.length (Nat.le_refl _)
  have hready : s₂.vars.results = none → s₂.isJoining ∧ s₂.allEnded := by
    intro _
    refine ⟨by rwa [StoreRun.isJoining, htask₂], allEnded_iff.mpr fun j r hj _ => hended j ?_⟩
    rw [hvars₂] at hj
    exact (List.getElem?_eq_some_iff.mp hj).1
  obtain ⟨s₃, hreach₃, hstatus₃, hvars₃⟩ := (hinv₁.reaches hreach₂).to_end hready
  refine ⟨s₃, hreach₁.trans (hreach₂.trans hreach₃), hvars₃, fun j r hj => ⟨fun hhandle => ?_, fun hno => ?_⟩⟩
  · have hlt := (List.getElem?_eq_some_iff.mp (hinv₁.old hstop hj hhandle)).1
    unfold StoreRun.isEnded
    rw [hstatus₃]
    exact hended j hlt
  · rw [hstatus₃]
    refine hrest j (Nat.le_of_not_lt fun hlt => ?_)
    have hj' := hinv₁.settles.2.1.getElem? (List.getElem?_eq_getElem hlt)
    rw [hj, Option.some_inj] at hj'
    rw [hj', (hinv₁.vars.before hnone₁).2 _ (List.getElem_mem hlt)] at hno
    cases hno

include hspares

/-- The chunk request `i` fails while `j` has not even started. -/
theorem chunk_alone {i j : Nat} {r r' : Rpc} (hi : final.rpcs[i]? = some r) (hj : final.rpcs[j]? = some r')
    (herror : isError (rpc i)) (htimed : rpc i = .timedOut → final.results.isSome) (hpeer : r.peerId = r'.peerId)
    (hhandle : r.hasHandle) (hhandle' : r'.hasHandle) : i = j := by
  by_contra hne
  obtain ⟨s₁, hreach₁, hstatus₁, hnone₁, hstop⟩ := h.to_join hnone
  have hinv₁ := h.reaches hreach₁
  have hi₁ := hinv₁.old hstop hi hhandle
  have hj₁ := hinv₁.old hstop hj hhandle'
  have hjoining (hend : rpc i = .timedOut) : s₁.isJoining := by
    rcases hstop with hvars | hjoining
    · have hsome := htimed hend
      rw [← hvars, hnone₁] at hsome
      cases hsome
    · exact hjoining
  have hnew₁ (k : Nat) : s₁.status k = .spawned := by rw [hstatus₁, hnew]
  have hidle₁ (k : Nat) : s₁.status k ≠ .sent := by
    rw [hnew₁]
    exact RpcStatus.noConfusion
  obtain ⟨s₂, hreach₂, -, hvars₂, hstatus₂⟩ := hinv₁.to_ended hi₁ hhandle (hnew₁ i) hidle₁ hjoining
  have hinv₂ := hinv₁.reaches hreach₂
  obtain ⟨-, r'', hi₂, hlog, -⟩ := hinv₂.ended i (rpc i) (by rw [hstatus₂, Function.update_self])
  rw [hvars₂, hi₁, Option.some_inj] at hi₂
  subst hi₂
  have hj₂ : s₂.vars.rpcs[j]? = some r' := by rw [hvars₂, hj₁]
  have hnew₂ : s₂.status j = .spawned := by rw [hstatus₂, Function.update_of_ne (Ne.symm hne), hnew₁]
  have hidle₂ (k : Nat) : s₂.status k ≠ .sent := by
    rw [hstatus₂]
    by_cases hk : k = i
    · rw [hk, Function.update_self]
      exact RpcStatus.noConfusion
    · rw [Function.update_of_ne hk]
      exact hidle₁ k
  exact send_not_spares (s := s₂.setStatus j .waiting) hlog herror hpeer j
    (hspares _ (hreach₁.trans (hreach₂.trans (hinv₂.to_sent hj₂ hhandle' hnew₂ hidle₂))))

/-- A request about the manifest is not held back by any failure. -/
theorem manifest_alone {i j : Nat} {r r' : Rpc} (hi : final.rpcs[i]? = some r) (hj : final.rpcs[j]? = some r')
    (herror : isError (rpc i)) (htimed : rpc i = .timedOut → r.hasHandle) (hpeer : r.peerId = r'.peerId)
    (hno : r'.hasHandle = false) : i = j := by
  by_contra hne
  have hsome : final.results.isSome := by
    rw [Option.isSome_iff_ne_none]
    intro hnone'
    have hall := (h.settles.1.before hnone').2 r' (List.mem_of_getElem? hj)
    rw [hno] at hall
    cases hall
  obtain ⟨s₁, hreach₁, hvars₁, hstatus₁⟩ := exists_last h hnone hnew hsome
  have hi₁ : s₁.vars.rpcs[i]? = some r := by rw [hvars₁, hi]
  have hj₁ : s₁.vars.rpcs[j]? = some r' := by rw [hvars₁, hj]
  have hnew₁ := (hstatus₁ j r' hj).2 hno
  cases hhandle : r.hasHandle with
  | true =>
    obtain ⟨e, he⟩ := isEnded_iff.mp ((hstatus₁ i r hi).1 hhandle)
    obtain ⟨rfl, r'', hi₁', hlog, -⟩ := (h.reaches hreach₁).ended i e he
    rw [hi₁, Option.some_inj] at hi₁'
    subst hi₁'
    exact send_not_spares hlog herror hpeer j
      (hspares _ (hreach₁.trans (.single (step_sends_at_once hj₁ hno hnew₁))))
  | false =>
    have hrpc : rpc i ≠ .timedOut := by
      intro hend
      rw [htimed hend] at hhandle
      cases hhandle
    have hnew₂ : ((s₁.send i r).finish i r (rpc i)).status j = .spawned := by
      change Function.update (Function.update s₁.status i .sent) i (.ended (rpc i)) j = .spawned
      rw [Function.update_of_ne (Ne.symm hne), Function.update_of_ne (Ne.symm hne), hnew₁]
    refine send_not_spares (s := (s₁.send i r).finish i r (rpc i))
      (List.mem_append_right _ (List.mem_singleton_self _)) herror hpeer j (hspares _ ?_)
    exact hreach₁.trans ((Reaches.single (step_sends_at_once hi₁ hhandle ((hstatus₁ i r hi).2 hhandle))).trans
      ((Reaches.single (step_answers (s := s₁.send i r) hi₁ (Function.update_self _ _ _) hrpc)).trans
        (Reaches.single (step_sends_at_once (s := (s₁.send i r).finish i r (rpc i)) hj₁ hno hnew₂))))

theorem refused_of_spares (hsome : final.results.isSome) {i : Nat} {r : Rpc} (hi : final.rpcs[i]? = some r)
    (hhandle : r.hasHandle) (hend : rpc i = .response (.addProviderResponse true)) :
    ∃ j r', final.rpcs[j]? = some r' ∧ r'.hasHandle ∧ r'.peerId = r.peerId ∧ ¬ isPositive (rpc j) := by
  obtain ⟨s', hreach, hvars, hstatus⟩ := exists_last h hnone hnew hsome
  have hinv := h.reaches hreach
  obtain ⟨results, hresults⟩ := Option.isSome_iff_exists.mp hsome
  obtain ⟨hfinal, -, hmarked⟩ := h.settles
  have hmem : (r.peerId, .response (.addProviderResponse true)) ∈ results := by
    rw [(hfinal.after results hresults).1]
    exact mem_resultsOf.mpr ⟨i, r, hi, hhandle, rfl, hend⟩
  have hfailed := hmarked results hresults r.peerId _ hmem (by rintro ⟨⟩)
  rw [← hvars] at hfailed
  obtain ⟨e, hlog, hnot⟩ := (hspares s' hreach).marks r.peerId hfailed
  obtain ⟨j, r', hj, hpeer, hended⟩ := hinv.logged r.peerId e hlog
  rw [hvars] at hj
  cases hhandle' : r'.hasHandle with
  | true =>
    obtain ⟨rfl, -⟩ := hinv.ended j e hended
    exact ⟨j, r', hj, hhandle', hpeer, hnot⟩
  | false =>
    rw [(hstatus j r' hj).2 hhandle'] at hended
    cases hended

end

/-- For given ends of the requests: the store spares its failed peers in every order just when a peer that
fails has no other request, and no peer that accepts all its requests has been announced to. -/
theorem spares_iff (ctx : HandlerContext) (inputs : Nat → StoreInput) (rpc : Nat → RpcEnd)
    (blocks : List (List (Hash × Bytes))) (encoder : Outcome Unit) (manifest : Hash × Bytes) (node : NodeState) :
    (∀ actions, Spares (run (StoreRun.step ctx inputs rpc)
      (.start (ctx.storeTessera blocks encoder manifest) node) actions)) ↔
      Apart rpc (finalVars ctx inputs rpc blocks encoder manifest node) := by
  have hstart := start_inv ctx inputs rpc blocks encoder manifest node
  constructor
  · intro h
    have hspares : ∀ s', Reaches (StoreRun.step ctx inputs rpc)
        (.start (ctx.storeTessera blocks encoder manifest) node) s' → Spares s' := by
      rintro _ ⟨actions, rfl⟩
      exact h actions
    refine ⟨fun i r j r' hi hj herror htimed hpeer hhandle => ?_, fun hsome i r hi =>
      refused_of_spares hstart rfl (fun _ => rfl) hspares hsome hi⟩
    cases hhandle' : r'.hasHandle with
    | true =>
      exact chunk_alone hstart rfl (fun _ => rfl) hspares hi hj herror (fun hend => (htimed hend).2) hpeer
        (hhandle hhandle') hhandle'
    | false =>
      exact manifest_alone hstart rfl (fun _ => rfl) hspares hi hj herror (fun hend => (htimed hend).1) hpeer
        hhandle'
  · intro hapart actions
    exact run_spares hstart hapart rfl actions

/-! ## A chunk for one peer -/

def neighbor : NodeInfo :=
  NodeInfo.new 0 (NodeId.fromBytes (Sha256.digest Admission.key1.bytes)) Admission.key1 [.v4 127 0 0 1 4434]

/-- The peer gets the chunk and its announcement. -/
def storeOne (rpc : Nat → RpcEnd) (actions : List StoreAction) : StoreRun :=
  let ctx := Admission.contextWith Admission.putCrates
  let t := Admission.freshState.routingTable
  run (StoreRun.step ctx (fun _ => ⟨Admission.quietInput, id⟩) rpc)
    (.start (ctx.storeTessera [[(Sha256.digest [7], [7])]] (.ok ()) (Sha256.digest [8], [8]))
      { Admission.freshState with routingTable := t.setBucket 7 { t.bucket 7 with nodes := [neighbor] } })
    actions

def failing : Nat → RpcEnd
  | 0 => .error "network: connection lost"
  | _ => .response (.addProviderResponse true)

def accepting : Nat → RpcEnd
  | 0 => .response (.putChunkResponse true)
  | _ => .response (.addProviderResponse true)

/-- The first request ends before the second is sent. -/
def oneByOne : List StoreAction :=
  List.replicate 11 .store ++ [.advance 0, .advance 0, .answer 0, .advance 1, .advance 1]

/-- The peer fails the first request and gets the second. A peer that accepts both is marked as failed. -/
theorem storeOne_not_spares :
    ¬ Spares (storeOne failing oneByOne) ∧
      ¬ Spares (storeOne accepting (oneByOne ++ [.answer 1, .store, .store])) := by
  constructor
  · intro h
    exact absurd h.quiet (by decide +kernel)
  · intro h
    have hfailed : neighbor.nodeId ∈
        (storeOne accepting (oneByOne ++ [.answer 1, .store, .store])).vars.failedPeers := by decide +kernel
    have hlog : (storeOne accepting (oneByOne ++ [.answer 1, .store, .store])).log =
        [.sent neighbor.nodeId, .ended neighbor.nodeId (accepting 0), .sent neighbor.nodeId,
          .ended neighbor.nodeId (accepting 1)] := by decide +kernel
    obtain ⟨e, he, hnot⟩ := h.marks neighbor.nodeId hfailed
    rw [hlog] at he
    have hends : e = accepting 0 ∨ e = accepting 1 := by simpa using he
    rcases hends with rfl | rfl
    · exact hnot rfl
    · exact hnot rfl

end TesserasDht.StoreFailures
