import TesserasDht.Connections
import TesserasDht.Code.Wire

/-!
# An idle connection is not used again

A connection is at one place at most: in the pool, with the request that opened it, or with the task
that accepted it. So a connection that the pool would not hand out any more does not come back.
-/

open Lib.Runs Lib.Lists Lib.Tables

namespace TesserasDht.IdleConnections

open Outbound Connections

/-- A request for its address would get the connection of the entry. -/
def Usable (t : Outbound) (entry : PoolEntry) : Prop :=
  t.isOpen entry.conn = true ∧ t.now - entry.lastUsed < poolStaleThreshold

instance (t : Outbound) (entry : PoolEntry) : Decidable (Usable t entry) :=
  inferInstanceAs (Decidable (_ ∧ _))

/-! ## Where a connection is -/

def connects (conn : Nat) : RequestPc → Nat
  | .connected _ c => if c = conn then 1 else 0
  | _ => 0

/-- How often the connection is about to be put into the pool. -/
def pending (t : Outbound) (conn : Nat) : Nat :=
  t.accepted.count conn + (t.requests.map fun r => connects conn r.pc).sum

def pooled (pool : ConnectionPool) (conn : Nat) : Nat := pool.countP fun e => e.2.conn = conn

/-- Whether the connection exists. -/
def created (t : Outbound) (conn : Nat) : Nat := if conn < t.conns.length then 1 else 0

/-- What a step does to a connection. -/
structure Effect (t t' : Outbound) (conn : Nat) : Prop where
  now : t.now ≤ t'.now
  created : created t conn ≤ created t' conn
  opened : conn < t.conns.length → t'.isOpen conn = true → t.isOpen conn = true
  pending : pending t' conn + IdleConnections.created t conn ≤
    pending t conn + IdleConnections.created t' conn
  held : pooled t'.pool conn + IdleConnections.pending t' conn + IdleConnections.created t conn ≤
    pooled t.pool conn + IdleConnections.pending t conn + IdleConnections.created t' conn
  entry : ∀ e ∈ t'.pool, e.2.conn = conn →
    e ∈ t.pool ∨ 0 < IdleConnections.pending t conn ∨ ∃ e' ∈ t.pool, e'.2.conn = conn ∧ Usable t e'.2

section

variable {crates : Crates} {t t' : Outbound} {i conn : Nat}

theorem pending_setPc {r : OutboundRequest} (hr : r ∈ t.requests[i]?) (pc : RequestPc) (conn : Nat) :
    pending (t.setPc i pc) conn + connects conn r.pc = pending t conn + connects conn pc := by
  have hset : (t.setPc i pc).requests = t.requests.set i { r with pc } := by
    rw [Outbound.setPc, List.modify_eq_set_getElem?, Option.mem_def.mp hr]
    rfl
  have hsum := sum_map_set (fun r => connects conn r.pc) t.requests i r { r with pc } hr
  dsimp only at hsum
  have haccepted : (t.setPc i pc).accepted = t.accepted := rfl
  unfold pending
  rw [hset, haccepted]
  omega

/-- The pool only loses entries, and the request only changes its place. -/
theorem effect_setPc {r : OutboundRequest} (hr : r ∈ t.requests[i]?) {pc : RequestPc}
    {pool : ConnectionPool} (hsub : pool.Sublist t.pool) (hpc : connects conn pc ≤ connects conn r.pc) :
    Effect t { t.setPc i pc with pool } conn := by
  have hpending : pending { t.setPc i pc with pool } conn ≤ pending t conn := by
    have := pending_setPc hr pc conn
    change pending (t.setPc i pc) conn ≤ _
    omega
  have hpooled : pooled pool conn ≤ pooled t.pool conn := hsub.countP_le
  exact ⟨Nat.le_refl _, Nat.le_refl _, fun _ h => h, Nat.add_le_add_right hpending _,
    Nat.add_le_add_right (Nat.add_le_add hpooled hpending) _, fun e he _ => Or.inl (hsub.subset he)⟩

theorem effect_place {r : OutboundRequest} (hr : r ∈ t.requests[i]?) {pc : RequestPc}
    (hpc : connects conn pc = 0) : Effect t (t.setPc i pc) conn :=
  effect_setPc hr (List.Sublist.refl _) (hpc ▸ Nat.zero_le _)

theorem effect_refl (t : Outbound) (conn : Nat) : Effect t t conn :=
  ⟨Nat.le_refl _, Nat.le_refl _, fun _ h => h, Nat.le_refl _, Nat.le_refl _, fun _ he _ => Or.inl he⟩

/-- Streams do not matter. -/
theorem Effect.streams (h : Effect t t' conn) (streams : List OutboundStream) :
    Effect t { t' with streams } conn := ⟨h.now, h.created, h.opened, h.pending, h.held, h.entry⟩

theorem pooled_insert (pool : ConnectionPool) (addr : SocketAddr) (c now : Nat) (conn : Nat) :
    pooled (pool.evictOldest.insert addr ⟨c, now⟩) conn ≤ pooled pool conn + if c = conn then 1 else 0 := by
  have hkept : pooled (pool.evictOldest.filter fun e => e.1 ≠ addr) conn ≤ pooled pool conn :=
    (List.filter_sublist.trans (evictOldest_sublist pool)).countP_le
  unfold pooled at hkept ⊢
  rw [ConnectionPool.insert, replace, List.countP_append, List.countP_singleton]
  refine Nat.add_le_add hkept ?_
  simp

theorem mem_insert {pool : ConnectionPool} {addr : SocketAddr} {c now : Nat} {e : SocketAddr × PoolEntry}
    (h : e ∈ pool.evictOldest.insert addr ⟨c, now⟩) : e ∈ pool ∨ e.2.conn = c := by
  rcases mem_replace.mp h with ⟨he, -⟩ | rfl
  · exact Or.inl ((evictOldest_sublist pool).subset he)
  · exact Or.inr rfl

theorem effect_lookUp (hrouted : Routed t) {r : OutboundRequest} (hr : r ∈ t.requests[i]?) (n : Try) :
    Effect t (t.lookUp i r.addr n) conn := by
  unfold Outbound.lookUp
  split
  · exact effect_place hr rfl
  next addr entry hfind =>
    obtain rfl : addr = r.addr := by simpa using List.find?_some hfind
    have hmem := List.mem_of_find?_eq_some hfind
    split
    next husable =>
      have hplace : Effect t (t.setPc i (.opening n entry.conn)) conn := effect_place hr rfl
      have hsame : ∀ e ∈ t.pool, e.1 = r.addr → e = (r.addr, entry) := fun e he hkey =>
        List.inj_on_of_nodup_map hrouted.pool.distinct he hmem hkey
      have hpooled : pooled (t.pool.map fun e =>
          if e.1 = r.addr then (r.addr, { entry with lastUsed := t.now }) else e) conn = pooled t.pool conn := by
        unfold pooled
        rw [List.countP_map]
        refine List.countP_congr fun e he => ?_
        rw [Function.comp_apply]
        split
        next hkey => rw [hsame e he hkey]
        next => exact Iff.rfl
      refine ⟨hplace.now, hplace.created, hplace.opened, hplace.pending, ?_, ?_⟩
      · dsimp only
        rw [hpooled]
        exact hplace.held
      · intro e he hconn
        obtain ⟨e', he', rfl⟩ := List.mem_map.mp he
        split at hconn
        · exact Or.inr (Or.inr ⟨_, hmem, hconn, husable⟩)
        next hkey =>
          rw [if_neg hkey]
          exact Or.inl he'
    next => exact effect_setPc hr List.filter_sublist (Nat.zero_le _)

/-- A new connection, with a request or with the acceptor. -/
theorem effect_new {requests : List OutboundRequest} {accepted : List Nat} (addr : SocketAddr)
    (hpending : ∀ conn, pending { t with requests, accepted } conn ≤
      pending t conn + if t.conns.length = conn then 1 else 0) :
    Effect t { t with conns := t.conns ++ [⟨addr, false⟩], requests, accepted } conn := by
  have hcreated : created { t with conns := t.conns ++ [⟨addr, false⟩], requests, accepted } conn =
      created t conn + if t.conns.length = conn then 1 else 0 := by
    simp only [created, List.length_append, List.length_singleton]
    split_ifs <;> omega
  have hle : pending { t with conns := t.conns ++ [⟨addr, false⟩], requests, accepted } conn ≤
      pending t conn + if t.conns.length = conn then 1 else 0 := hpending conn
  refine ⟨Nat.le_refl _, by omega, ?_, by omega, ?_, fun e he _ => Or.inl he⟩
  · intro hlt hopen
    unfold Outbound.isOpen at hopen ⊢
    rwa [List.getElem?_append_left hlt] at hopen
  · dsimp only
    omega

/-- A connection that was pending goes to the pool. -/
theorem effect_pooled {requests : List OutboundRequest} {accepted : List Nat} {addr : SocketAddr} {c : Nat}
    (hpending : ∀ conn, pending { t with requests, accepted } conn + (if c = conn then 1 else 0) ≤
      pending t conn) :
    Effect t { t with pool := t.pool.evictOldest.insert addr ⟨c, t.now⟩, requests, accepted } conn := by
  have hle := hpending conn
  have hpooled := pooled_insert t.pool addr c t.now conn
  change pending { t with pool := t.pool.evictOldest.insert addr ⟨c, t.now⟩, requests, accepted } conn + _ ≤ _
    at hle
  refine ⟨Nat.le_refl _, Nat.le_refl _, fun _ h => h, ?_, ?_, ?_⟩
  · exact Nat.add_le_add_right (by omega) _
  · refine Nat.add_le_add_right ?_ _
    dsimp only
    omega
  · intro e he hconn
    rcases mem_insert he with he | hnew
    · exact Or.inl he
    · refine Or.inr (Or.inl ?_)
      rw [if_pos (hnew.symm.trans hconn)] at hle
      omega

theorem isOpen_close {closing : Nat} (h : Outbound.isOpen
    { t with conns := t.conns.modify closing fun c => { c with closed := true } } conn = true) :
    t.isOpen conn = true := by
  simp only [Outbound.isOpen, List.getElem?_modify, decide_eq_true_eq] at h ⊢
  cases hc : t.conns[conn]? with
  | none => rw [hc] at h; cases h
  | some c =>
    rw [hc] at h
    by_cases hclosing : closing = conn
    · simp [hclosing] at h
    · simpa [hclosing] using h

theorem step_effect (hrouted : Routed t) (a : Action) (conn : Nat) : Effect t (step crates t a) conn := by
  have hsame := effect_refl t conn
  cases a with
  | tick d =>
    exact ⟨Nat.le_add_right _ _, hsame.created, hsame.opened, hsame.pending, hsame.held, hsame.entry⟩
  | request addr data =>
    have hpending : pending { t with requests := t.requests ++ [⟨addr, data, .lookup .first⟩] } conn =
        pending t conn := by
      simp [pending, connects]
    refine ⟨hsame.now, hsame.created, hsame.opened, ?_, ?_, hsame.entry⟩
    · exact Nat.add_le_add_right hpending.le _
    · exact Nat.add_le_add_right (Nat.add_le_add_left hpending.le _) _
  | lookup i =>
    refine ofRequest_of (P := fun t' => Effect t t' conn) hsame fun r hr => ?_
    split
    · exact effect_lookUp hrouted hr _
    · exact hsame
  | connectFails i reason =>
    refine ofRequest_of (P := fun t' => Effect t t' conn) hsame fun r hr => ?_
    split
    · exact effect_place hr rfl
    · exact hsame
  | connectTimesOut i =>
    refine ofRequest_of (P := fun t' => Effect t t' conn) hsame fun r hr => ?_
    split
    · exact effect_place hr rfl
    · exact hsame
  | connect i =>
    refine ofRequest_of (P := fun t' => Effect t t' conn) hsame fun r hr => ?_
    split
    next n hpc =>
      refine effect_new r.addr fun conn => ?_
      have := pending_setPc hr (.connected n t.conns.length) conn
      rw [hpc] at this
      exact this.le
    next => exact hsame
  | insert i =>
    refine ofRequest_of (P := fun t' => Effect t t' conn) hsame fun r hr => ?_
    split
    next n c hpc =>
      refine effect_pooled fun conn => ?_
      have := pending_setPc hr (.opening n c) conn
      rw [hpc] at this
      exact this.le
    next => exact hsame
  | openFails i reason =>
    refine ofRequest_of (P := fun t' => Effect t t' conn) hsame fun r hr => ?_
    split
    · unfold Outbound.sent
      split
      · exact effect_place hr rfl
      · exact effect_place hr rfl
    · exact hsame
  | openStream i =>
    refine ofRequest_of (P := fun t' => Effect t t' conn) hsame fun r hr => ?_
    split
    · split
      · exact (effect_place hr rfl).streams _
      · exact hsame
    · exact hsame
  | exchange i e =>
    refine ofRequest_of (P := fun t' => Effect t t' conn) hsame fun r hr => ?_
    split
    · dsimp only
      unfold Outbound.sent
      split
      · exact (effect_place hr rfl).streams _
      · exact (effect_place hr rfl).streams _
    · exact hsame
  | evict i =>
    refine ofRequest_of (P := fun t' => Effect t t' conn) hsame fun r hr => ?_
    split
    · dsimp only
      split
      · exact effect_setPc hr List.filter_sublist (Nat.zero_le _)
      · exact effect_setPc hr List.filter_sublist (Nat.zero_le _)
    · exact hsame
  | accept addr =>
    refine effect_new addr fun conn => ?_
    simp only [pending, List.count_append, List.count_singleton, beq_iff_eq]
    omega
  | cache n =>
    dsimp only [step]
    split
    next c hc =>
      split
      · refine effect_pooled fun conn => ?_
        obtain ⟨hlt, hget⟩ := List.getElem?_eq_some_iff.mp hc
        have hcount := (List.getElem_cons_eraseIdx_perm hlt).count_eq conn
        rw [hget, List.count_cons] at hcount
        simp only [beq_iff_eq] at hcount
        have hrequests (addr : SocketAddr) : (t.pooled addr c).requests = t.requests := rfl
        simp only [pending, hrequests]
        omega
      · exact hsame
    next => exact hsame
  | close closing =>
    have hlen : (t.conns.modify closing fun c => { c with closed := true }).length = t.conns.length :=
      List.length_modify ..
    have hcreated : created { t with conns := t.conns.modify closing fun c => { c with closed := true } } conn =
        created t conn := by
      unfold created
      rw [hlen]
    refine ⟨hsame.now, hcreated.ge, fun _ hopen => isOpen_close hopen, ?_, ?_, hsame.entry⟩
    · exact Nat.add_le_add_left hcreated.ge _
    · exact Nat.add_le_add_left hcreated.ge _
  | cleanup =>
    have hpooled : pooled (t.pool.filter fun e => t.isOpen e.2.conn) conn ≤ pooled t.pool conn :=
      List.filter_sublist.countP_le
    refine ⟨hsame.now, hsame.created, hsame.opened, hsame.pending, ?_, ?_⟩
    · exact Nat.add_le_add_right (Nat.add_le_add_right hpooled _) _
    · exact fun e he _ => Or.inl (List.mem_of_mem_filter he)
  | reorder pool =>
    dsimp only [step]
    split
    next hperm =>
      have hpooled : pooled pool conn = pooled t.pool conn := hperm.countP_eq _
      refine ⟨hsame.now, hsame.created, hsame.opened, hsame.pending, ?_, ?_⟩
      · exact Nat.add_le_add_right (Nat.add_le_add_right hpooled.le _) _
      · exact fun e he _ => Or.inl (hperm.subset he)
    next => exact hsame

/-! ## Runs -/

/-- The connection is at one place at most. -/
structure Single (t : Outbound) : Prop where
  routed : Routed t
  held : ∀ conn, pooled t.pool conn + pending t conn ≤ created t conn

theorem step_single (h : Single t) (a : Action) : Single (step crates t a) := by
  refine ⟨step_routed crates h.routed a, fun conn => ?_⟩
  have heffect : Effect t (step crates t a) conn := step_effect h.routed a conn
  have hgain := heffect.held
  have hheld := h.held conn
  omega

/-- No request will get the connection from the pool. -/
structure Spent (t : Outbound) (conn : Nat) : Prop where
  created : conn < t.conns.length
  pending : pending t conn = 0
  entries : ∀ e ∈ t.pool, e.2.conn = conn → ¬Usable t e.2

theorem Spent.step (h : Spent t conn) (hrouted : Routed t) (a : Action) : Spent (step crates t a) conn := by
  have heffect : Effect t (Outbound.step crates t a) conn := step_effect hrouted a conn
  have hone : IdleConnections.created t conn = 1 := if_pos h.created
  have hcreated : IdleConnections.created (Outbound.step crates t a) conn = 1 := by
    have hle := heffect.created
    unfold IdleConnections.created at hle hone ⊢
    rw [hone] at hle
    split at hle
    next hlt => exact if_pos hlt
    next => omega
  refine ⟨?_, ?_, ?_⟩
  · unfold IdleConnections.created at hcreated
    split at hcreated
    next hlt => exact hlt
    next => cases hcreated
  · have hpending := heffect.pending
    rw [hone, hcreated, h.pending] at hpending
    omega
  · rintro e he hconn ⟨hopen, hrecent⟩
    rcases heffect.entry e he hconn with hold | hpending | ⟨e', he', hconn', husable⟩
    · refine h.entries e hold hconn ⟨?_, ?_⟩
      · rw [hconn] at hopen ⊢
        exact heffect.opened h.created hopen
      · exact Nat.lt_of_le_of_lt (Nat.sub_le_sub_right heffect.now _) hrecent
    · rw [h.pending] at hpending
      exact absurd hpending (Nat.lt_irrefl 0)
    · exact h.entries e' he' hconn' husable

/-- The step gives a connection of the pool to a request. -/
def Gives (crates : Crates) (t : Outbound) (a : Action) (conn : Nat) : Prop :=
  ∃ i n, a = .lookup i ∧ (∃ r ∈ t.requests[i]?, r.pc = .lookup n) ∧
    ∃ r ∈ (step crates t a).requests[i]?, r.pc = .opening n conn

/-- What a request gets is open, leads to its address, and was used a moment ago. -/
theorem Gives.usable {a : Action} (h : Gives crates t a conn) :
    ∃ e ∈ t.pool, e.2.conn = conn ∧ Usable t e.2 := by
  obtain ⟨i, n, rfl, ⟨r, hr, hpc⟩, r', hr', hpc'⟩ := h
  have hstep : step crates t (.lookup i) = t.lookUp i r.addr n := by
    simp only [step, ofRequest, Option.mem_def.mp hr, hpc]
  rw [hstep] at hr'
  -- after a miss it would stand elsewhere
  have hmiss (pool : ConnectionPool)
      (hmem : r' ∈ ({ t.setPc i (.connecting n) with pool } : Outbound).requests[i]?) : False := by
    rcases getElem?_setPc hmem with ⟨-, hne⟩ | ⟨-, r'', -, rfl⟩
    · exact hne rfl
    · cases hpc'
  unfold Outbound.lookUp at hr'
  split at hr'
  · exact (hmiss t.pool hr').elim
  next addr entry hfind =>
    split at hr'
    next husable =>
      have hset : r' ∈ (t.setPc i (.opening n entry.conn)).requests[i]? := hr'
      rcases getElem?_setPc hset with ⟨-, hne⟩ | ⟨-, r'', -, rfl⟩
      · exact absurd rfl hne
      · cases hpc'
        exact ⟨_, List.mem_of_find?_eq_some hfind, rfl, husable⟩
    next => exact (hmiss _ hr').elim

theorem Spent.not_given (h : Spent t conn) (a : Action) : ¬Gives crates t a conn := by
  intro hgives
  obtain ⟨e, he, hconn, husable⟩ := hgives.usable
  exact h.entries e he hconn husable

theorem Spent.run (h : Spent t conn) (hrouted : Routed t) (as : List Action) :
    Meets (Outbound.step crates) (fun t a => ¬Gives crates t a conn) t as := by
  induction as generalizing t with
  | nil => trivial
  | cons a as ih => exact ⟨h.not_given a, ih (h.step hrouted a) (step_routed crates hrouted a)⟩

theorem run_single (crates : Crates) (as : List Action) : Single (run (step crates) empty as) := by
  have hempty : Single empty := ⟨routed_empty, fun conn => by simp [pooled, pending, empty]⟩
  have hmeets : Meets (Outbound.step crates) (fun _ _ => True) empty as :=
    meets_of_forall (fun _ _ => trivial) _ _
  exact run_inv (I := Single) (fun _ a h _ => step_single h a) hempty hmeets

/-- An entry that the pool would not hand out belongs to a connection that is nowhere else. -/
theorem Single.spent (h : Single t) {e : SocketAddr × PoolEntry} (he : e ∈ t.pool) (hidle : ¬Usable t e.2) :
    Spent t e.2.conn := by
  have hpooled : 0 < pooled t.pool e.2.conn := List.countP_pos_iff.mpr ⟨e, he, by simp⟩
  have hheld := h.held e.2.conn
  have hcreated : created t e.2.conn ≤ 1 := by
    unfold created
    split <;> omega
  obtain ⟨c, hc, hlead⟩ := h.routed.pool.entries e he
  refine ⟨(List.getElem?_eq_some_iff.mp hc).1, by omega, ?_⟩
  intro e' he' hconn
  obtain ⟨c', hc', hlead'⟩ := h.routed.pool.entries e' he'
  rw [hconn] at hc'
  cases Option.mem_unique hc hc'
  cases List.inj_on_of_nodup_map h.routed.pool.distinct he he' (hlead.symm.trans hlead')
  exact hidle

end

/-- In every interleaving, a pooled connection that was closed or not used for ten seconds is given to
no later request. -/
theorem idle_connection_is_not_given (crates : Crates) (before after : List Action)
    {e : SocketAddr × PoolEntry} (he : e ∈ (run (step crates) empty before).pool)
    (hidle : (run (step crates) empty before).isOpen e.2.conn = false ∨
      poolStaleThreshold ≤ (run (step crates) empty before).now - e.2.lastUsed) :
    Meets (step crates) (fun t a => ¬Gives crates t a e.2.conn) (run (step crates) empty before) after := by
  have hsingle := run_single crates before
  refine (hsingle.spent he ?_).run hsingle.routed after
  rintro ⟨hopen, hrecent⟩
  rcases hidle with hclosed | hstale
  · rw [hclosed] at hopen
    cases hopen
  · exact Nat.not_lt.mpr hstale hrecent

/-- A request to a peer, and ten seconds. -/
def tenSeconds : List Action :=
  [.request (.v4 192 0 2 7 4433) [], .lookup 0, .connect 0, .insert 0, .tick poolStaleThreshold]

theorem idle_connection_is_not_given_ten_seconds :
    Meets (step (.knowing [] [])) (fun t a => ¬Gives (.knowing [] []) t a 0)
      (run (step (.knowing [] [])) empty tenSeconds) [.request (.v4 192 0 2 7 4433) [], .lookup 1] := by
  have hmem : (.v4 192 0 2 7 4433, ⟨0, 0⟩) ∈ (run (step (.knowing [] [])) empty tenSeconds).pool := by
    decide
  exact idle_connection_is_not_given (.knowing [] []) tenSeconds _ hmem (Or.inr (by decide))

end TesserasDht.IdleConnections
