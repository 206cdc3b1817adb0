import TesserasDht.Lib.Runs
import TesserasDht.Code.Connections

/-!
# Connections stay with their peer

A connection leads to one address. The pool keeps it under that address, and a request only opens
streams on connections that lead to its own.
-/

open Lib.Runs Lib.Lists Lib.Tables

namespace TesserasDht.Connections

open Outbound

/-- The connection leads to the address. -/
def LeadsTo (conns : List QuicConnection) (conn : Nat) (addr : SocketAddr) : Prop :=
  ∃ c ∈ conns[conn]?, c.remoteAddress = addr

/-- The connection that a request has, before it opens its stream. -/
def connOf : RequestPc → Option Nat
  | .connected _ conn | .opening _ conn => some conn
  | _ => none

structure PoolOk (conns : List QuicConnection) (pool : ConnectionPool) : Prop where
  bounded : pool.length ≤ maxPoolSize
  distinct : (pool.map Prod.fst).Nodup
  entries : ∀ e ∈ pool, LeadsTo conns e.2.conn e.1

structure Routed (t : Outbound) : Prop where
  pool : PoolOk t.conns t.pool
  held : ∀ (i : Nat), ∀ r ∈ t.requests[i]?, ∀ conn ∈ connOf r.pc, LeadsTo t.conns conn r.addr
  streams : ∀ s ∈ t.streams, ∃ r ∈ t.requests[s.request]?, LeadsTo t.conns s.conn r.addr

/-! ## The pool -/

section

variable {conns conns' : List QuicConnection} {pool pool' : ConnectionPool} {conn : Nat} {addr : SocketAddr}

theorem LeadsTo.append (h : LeadsTo conns conn addr) (c : QuicConnection) :
    LeadsTo (conns ++ [c]) conn addr := by
  obtain ⟨c', hc', haddr⟩ := h
  have hlt := (List.getElem?_eq_some_iff.mp hc').1
  exact ⟨c', by rwa [List.getElem?_append_left hlt], haddr⟩

theorem LeadsTo.close (h : LeadsTo conns conn addr) (closing : Nat) :
    LeadsTo (conns.modify closing fun c => { c with closed := true }) conn addr := by
  obtain ⟨c, hc, haddr⟩ := h
  have hmodify : (conns.modify closing fun c => { c with closed := true })[conn]? =
      some (if closing = conn then { c with closed := true } else c) := by
    rw [List.getElem?_modify, Option.mem_def.mp hc]
    rfl
  refine ⟨_, hmodify, ?_⟩
  split
  · exact haddr
  · exact haddr

theorem leadsTo_new (conns : List QuicConnection) (addr : SocketAddr) (closed : Bool) :
    LeadsTo (conns ++ [⟨addr, closed⟩]) conns.length addr :=
  ⟨⟨addr, closed⟩, List.getElem?_concat_length, rfl⟩

theorem PoolOk.mono (h : PoolOk conns pool)
    (hgrow : ∀ conn addr, LeadsTo conns conn addr → LeadsTo conns' conn addr) : PoolOk conns' pool :=
  ⟨h.bounded, h.distinct, fun e he => hgrow _ _ (h.entries e he)⟩

theorem PoolOk.sublist (h : PoolOk conns pool) (hsub : pool'.Sublist pool) : PoolOk conns pool' :=
  ⟨hsub.length_le.trans h.bounded, h.distinct.sublist (hsub.map _), fun e he => h.entries e (hsub.subset he)⟩

theorem PoolOk.perm (h : PoolOk conns pool) (hperm : pool'.Perm pool) : PoolOk conns pool' :=
  ⟨hperm.length_eq ▸ h.bounded, (hperm.map _).nodup_iff.mpr h.distinct,
    fun e he => h.entries e (hperm.subset he)⟩

/-- Use an entry again. -/
theorem PoolOk.touch (h : PoolOk conns pool) {entry : PoolEntry} (hmem : (addr, entry) ∈ pool)
    (now : Nat) : PoolOk conns
      (pool.map fun e => if e.1 = addr then (addr, { entry with lastUsed := now }) else e) := by
  refine ⟨?_, ?_, ?_⟩
  · rw [List.length_map]
    exact h.bounded
  · have hkeys : (pool.map fun e => if e.1 = addr then (addr, { entry with lastUsed := now }) else e).map
        Prod.fst = pool.map Prod.fst := by
      rw [List.map_map]
      refine List.map_congr_left fun e _ => ?_
      rw [Function.comp_apply]
      split
      next heq => exact heq.symm
      next => rfl
    rw [hkeys]
    exact h.distinct
  · intro e he
    obtain ⟨e', he', rfl⟩ := List.mem_map.mp he
    split
    · exact h.entries (addr, entry) hmem
    · exact h.entries e' he'

theorem evictOldest_sublist (pool : ConnectionPool) : pool.evictOldest.Sublist pool := by
  unfold ConnectionPool.evictOldest
  split
  · split
    · exact List.filter_sublist
    · exact List.Sublist.refl _
  · exact List.Sublist.refl _

theorem length_evictOldest (h : PoolOk conns pool) : pool.evictOldest.length < maxPoolSize := by
  unfold ConnectionPool.evictOldest
  split
  next hfull =>
    split
    next oldest holdest =>
      have hmem : oldest ∈ pool := List.argmin_mem holdest
      calc (pool.filter fun e => e.1 ≠ oldest.1).length
          < pool.length := List.length_filter_lt_length_iff_exists.mpr ⟨oldest, hmem, by simp⟩
        _ ≤ maxPoolSize := h.bounded
    next hnone =>
      rw [List.argmin_eq_none] at hnone
      rw [hnone]
      decide
  next hroom => exact Nat.not_le.mp hroom

theorem PoolOk.insert (h : PoolOk conns pool) (hlead : LeadsTo conns conn addr) (now : Nat) :
    PoolOk conns (pool.evictOldest.insert addr ⟨conn, now⟩) := by
  have hevict := h.sublist (evictOldest_sublist pool)
  refine ⟨?_, nodup_replace hevict.distinct _, ?_⟩
  · have hlt := length_evictOldest h
    have hle : (pool.evictOldest.filter fun e => e.1 ≠ addr).length ≤ pool.evictOldest.length :=
      List.length_filter_le _ _
    simp only [ConnectionPool.insert, replace, List.length_append, List.length_singleton]
    omega
  · intro e he
    rcases mem_replace.mp he with ⟨he, -⟩ | rfl
    · exact hevict.entries e he
    · exact hlead

end

/-! ## Steps -/

section

variable {crates : Crates} {t : Outbound} {i : Nat}

theorem getElem?_setPc {j : Nat} {pc : RequestPc} {r : OutboundRequest}
    (h : r ∈ (t.setPc i pc).requests[j]?) :
    r ∈ t.requests[j]? ∧ i ≠ j ∨ i = j ∧ ∃ r' ∈ t.requests[j]?, r = { r' with pc } := by
  simp only [setPc, List.getElem?_modify, Option.mem_def, Option.map_eq_map, Option.map_eq_some_iff] at h
  obtain ⟨r', hr', rfl⟩ := h
  by_cases hij : i = j
  · exact Or.inr ⟨hij, r', hr', by rw [if_pos hij]⟩
  · rw [if_neg hij]
    exact Or.inl ⟨hr', hij⟩

theorem mem_setPc (i : Nat) (pc : RequestPc) {j : Nat} {r : OutboundRequest} (h : r ∈ t.requests[j]?) :
    ∃ r' ∈ (t.setPc i pc).requests[j]?, r'.addr = r.addr := by
  simp only [setPc, List.getElem?_modify, Option.mem_def, Option.map_eq_map] at h ⊢
  rw [h]
  refine ⟨_, rfl, ?_⟩
  dsimp only
  split
  · rfl
  · rfl

theorem ofRequest_of {P : Outbound → Prop} {f : OutboundRequest → Outbound} (h : P t)
    (hf : ∀ r ∈ t.requests[i]?, P (f r)) : P (t.ofRequest i f) := by
  unfold ofRequest
  split
  next r hr => exact hf r hr
  next => exact h

theorem Routed.setPc_with (h : Routed t) {pc : RequestPc} {pool : ConnectionPool}
    (hpool : PoolOk t.conns pool)
    (hpc : ∀ r ∈ t.requests[i]?, ∀ conn ∈ connOf pc, LeadsTo t.conns conn r.addr) :
    Routed { t.setPc i pc with pool } := by
  refine ⟨hpool, ?_, ?_⟩
  · intro j r hr conn hconn
    rcases getElem?_setPc hr with ⟨hr, -⟩ | ⟨rfl, r', hr', rfl⟩
    · exact h.held j r hr conn hconn
    · exact hpc r' hr' conn hconn
  · intro s hs
    obtain ⟨r, hr, hlead⟩ := h.streams s hs
    obtain ⟨r', hr', haddr⟩ := mem_setPc i pc hr
    exact ⟨r', hr', haddr ▸ hlead⟩

theorem Routed.setPc (h : Routed t) {pc : RequestPc}
    (hpc : ∀ r ∈ t.requests[i]?, ∀ conn ∈ connOf pc, LeadsTo t.conns conn r.addr) :
    Routed (t.setPc i pc) := h.setPc_with h.pool hpc

/-- The request does not have a connection then. -/
theorem Routed.setPc_none (h : Routed t) {pc : RequestPc} (hpc : connOf pc = none) :
    Routed (t.setPc i pc) := h.setPc fun r _ conn hconn => by rw [hpc] at hconn; cases hconn

theorem Routed.conns (h : Routed t) {conns : List QuicConnection}
    (hgrow : ∀ conn addr, LeadsTo t.conns conn addr → LeadsTo conns conn addr) :
    Routed { t with conns } := by
  refine ⟨h.pool.mono hgrow, fun i r hr conn hconn => hgrow _ _ (h.held i r hr conn hconn), ?_⟩
  intro s hs
  obtain ⟨r, hr, hlead⟩ := h.streams s hs
  exact ⟨r, hr, hgrow _ _ hlead⟩

theorem Routed.newPool (h : Routed t) {pool : ConnectionPool} (hpool : PoolOk t.conns pool) :
    Routed { t with pool } := ⟨hpool, h.held, h.streams⟩

theorem Routed.sent (h : Routed t) (n : Try) (result : Except TesseraError Message) :
    Routed (t.sent i n result) := by
  unfold Outbound.sent
  split
  · exact h.setPc_none rfl
  · exact h.setPc_none rfl

theorem Routed.lookUp (h : Routed t) {r : OutboundRequest} (hr : r ∈ t.requests[i]?) (n : Try) :
    Routed (t.lookUp i r.addr n) := by
  unfold Outbound.lookUp
  split
  · exact h.setPc_none rfl
  next addr entry hfind =>
    obtain rfl : addr = r.addr := by simpa using List.find?_some hfind
    have hmem := List.mem_of_find?_eq_some hfind
    split
    · refine h.setPc_with (h.pool.touch hmem t.now) ?_
      rintro r' hr' _ ⟨⟩
      cases Option.mem_unique hr hr'
      exact h.pool.entries _ hmem
    · exact h.setPc_with (h.pool.sublist List.filter_sublist) fun _ _ _ hconn => by cases hconn

theorem Routed.openStream (h : Routed t) {r : OutboundRequest} (hr : r ∈ t.requests[i]?) {conn : Nat}
    (hlead : LeadsTo t.conns conn r.addr) (n : Try) :
    Routed { t.setPc i (.awaiting n t.streams.length) with streams := t.streams ++ [⟨conn, i, none⟩] } := by
  have hset : Routed (t.setPc i (.awaiting n t.streams.length)) := h.setPc_none rfl
  refine ⟨hset.pool, hset.held, ?_⟩
  intro s hs
  rcases List.mem_append.mp hs with hs | hs
  · exact hset.streams s hs
  · rw [List.mem_singleton.mp hs]
    obtain ⟨r', hr', haddr⟩ := mem_setPc i (.awaiting n t.streams.length) hr
    exact ⟨r', hr', haddr ▸ hlead⟩

theorem Routed.exchanged (h : Routed t) (stream : Nat) (outcome : Option (Except TesseraError Message)) :
    Routed { t with streams := t.streams.modify stream fun s => { s with outcome } } := by
  refine ⟨h.pool, h.held, ?_⟩
  intro s hs
  obtain ⟨j, hj⟩ := List.mem_iff_getElem?.mp hs
  rw [List.getElem?_modify, Option.map_eq_map, Option.map_eq_some_iff] at hj
  obtain ⟨s', hs', rfl⟩ := hj
  have hold := h.streams s' (List.mem_of_getElem? hs')
  dsimp only
  split
  · exact hold
  · exact hold

theorem Routed.request (h : Routed t) (addr : SocketAddr) (data : Bytes) :
    Routed { t with requests := t.requests ++ [⟨addr, data, .lookup .first⟩] } := by
  refine ⟨h.pool, ?_, ?_⟩
  · intro i r hr conn hconn
    rcases getElem?_concat_some hr with hr | ⟨-, rfl⟩
    · exact h.held i r hr conn hconn
    · cases hconn
  · intro s hs
    obtain ⟨r, hr, hlead⟩ := h.streams s hs
    have hlt := (List.getElem?_eq_some_iff.mp hr).1
    exact ⟨r, by rwa [List.getElem?_append_left hlt], hlead⟩

theorem step_routed (crates : Crates) (h : Routed t) (a : Action) : Routed (step crates t a) := by
  cases a with
  | tick d => exact ⟨h.pool, h.held, h.streams⟩
  | request addr data => exact h.request addr data
  | lookup i =>
    refine ofRequest_of h fun r hr => ?_
    split
    · exact h.lookUp hr _
    · exact h
  | connectFails i reason =>
    refine ofRequest_of h fun r _ => ?_
    split
    · exact h.setPc_none rfl
    · exact h
  | connectTimesOut i =>
    refine ofRequest_of h fun r _ => ?_
    split
    · exact h.setPc_none rfl
    · exact h
  | connect i =>
    refine ofRequest_of h fun r hr => ?_
    split
    next n _ =>
      have hgrown := h.conns fun conn addr hlead => hlead.append ⟨r.addr, false⟩
      refine hgrown.setPc ?_
      rintro r' hr' _ ⟨⟩
      cases Option.mem_unique hr hr'
      exact leadsTo_new _ _ _
    next => exact h
  | insert i =>
    refine ofRequest_of h fun r hr => ?_
    split
    next n conn hpc =>
      have hlead := h.held i r hr conn (by rw [hpc]; rfl)
      refine (h.newPool (h.pool.insert hlead t.now)).setPc ?_
      rintro r' hr' _ ⟨⟩
      cases Option.mem_unique hr hr'
      exact hlead
    next => exact h
  | openFails i reason =>
    refine ofRequest_of h fun r _ => ?_
    split
    · exact h.sent _ _
    · exact h
  | openStream i =>
    refine ofRequest_of h fun r hr => ?_
    split
    next n conn hpc =>
      split
      · exact h.openStream hr (h.held i r hr conn (by rw [hpc]; rfl)) n
      · exact h
    next => exact h
  | exchange i e =>
    refine ofRequest_of h fun r _ => ?_
    split
    · exact (h.exchanged _ _).sent _ _
    · exact h
  | evict i =>
    refine ofRequest_of h fun r _ => ?_
    have hpool := h.newPool (h.pool.sublist (List.filter_sublist (p := fun e => e.1 ≠ r.addr)))
    split
    · dsimp only
      split
      · exact hpool.setPc_none rfl
      · exact hpool.setPc_none rfl
    · exact h
  | accept addr =>
    have hgrown := h.conns fun conn addr' hlead => hlead.append ⟨addr, false⟩
    exact ⟨hgrown.pool, hgrown.held, hgrown.streams⟩
  | cache n =>
    dsimp only [step]
    split
    · split
      next c hc =>
        have hpool := h.pool.insert ⟨c, hc, rfl⟩ t.now
        exact ⟨hpool, h.held, h.streams⟩
      next => exact h
    · exact h
  | close conn => exact h.conns fun _ _ hlead => hlead.close conn
  | cleanup => exact h.newPool (h.pool.sublist List.filter_sublist)
  | reorder pool =>
    dsimp only [step]
    split
    next hperm => exact h.newPool (h.pool.perm hperm)
    next => exact h

theorem routed_empty : Routed empty :=
  ⟨⟨Nat.zero_le _, List.nodup_nil, by rintro _ ⟨⟩⟩, by rintro _ _ ⟨⟩, by rintro _ ⟨⟩⟩

theorem run_routed (crates : Crates) (as : List Action) : Routed (run (step crates) empty as) := by
  have hmeets : Meets (step crates) (fun _ _ => True) empty as := meets_of_forall (fun _ _ => trivial) _ _
  exact run_inv (I := Routed) (fun _ a h _ => step_routed crates h a) routed_empty hmeets

end

end TesserasDht.Connections
