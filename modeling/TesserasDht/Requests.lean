import TesserasDht.Connections

/-!
# A request is sent at most twice

A second stream for a request is opened only after the first one failed, and not after a timeout.
-/

open Lib.Runs Lib.Lists

namespace TesserasDht.Requests

open Outbound Connections

def streamsOf (streams : List OutboundStream) (i : Nat) : List OutboundStream :=
  streams.filter fun s => s.request = i

/-- The stream failed, and the request is sent again. -/
def Retried (s : OutboundStream) : Prop := ∃ e, s.outcome = some (.error e) ∧ e ≠ .timeout

/-- The streams of a request before the given try. -/
def Before : Try → List OutboundStream → Prop
  | .first, l => l = []
  | .second, l => l.length ≤ 1 ∧ ∀ s ∈ l, Retried s

/-- The request ended with what its last stream brought. -/
def Brought (l : List OutboundStream) (result : Except TesseraError Message) : Prop :=
  ∃ n before s, Before n before ∧ l = before ++ [s] ∧ s.outcome = some result

/-- The streams of a request fit the place where it stands. -/
def Fits (crates : Crates) (streams : List OutboundStream) (i : Nat) (data : Bytes) : RequestPc → Prop
  | .lookup n | .connecting n | .connected n _ | .opening n _ => Before n (streamsOf streams i)
  | .awaiting n stream => ∃ before conn, Before n before ∧
    streamsOf streams i = before ++ [⟨conn, i, none⟩] ∧ streams[stream]? = some ⟨conn, i, none⟩
  | .evicting e => (streamsOf streams i).length ≤ 1 ∧
    ∀ s ∈ streamsOf streams i, s.outcome = some (.error e)
  | .finished (.error e) => Before .second (streamsOf streams i) ∨ Brought (streamsOf streams i) (.error e)
  | .finished (.ok msg) => Brought (streamsOf streams i) (.ok msg) ∧ ∃ e, exchange crates data e = .ok msg

structure Journal (crates : Crates) (t : Outbound) : Prop where
  known : ∀ s ∈ t.streams, s.request < t.requests.length
  fits : ∀ (i : Nat), ∀ r ∈ t.requests[i]?, Fits crates t.streams i r.data r.pc

/-! ## Streams of one request -/

section

variable {crates : Crates} {streams : List OutboundStream} {i : Nat}

theorem Before.weaken {n : Try} {l : List OutboundStream} (h : Before n l) : Before .second l := by
  cases n with
  | first =>
    cases h
    exact ⟨Nat.zero_le _, by rintro _ ⟨⟩⟩
  | second => exact h

theorem streamsOf_open (s : OutboundStream) :
    streamsOf (streams ++ [s]) i = if s.request = i then streamsOf streams i ++ [s] else streamsOf streams i := by
  unfold streamsOf
  rw [List.filter_append, List.filter_singleton]
  split
  next h => rw [decide_eq_true h]; rfl
  next h => rw [decide_eq_false h]; exact List.append_nil _

theorem last_of_append {α : Type} {before front back : List α} {x y : α}
    (h : before ++ [y] = front ++ x :: back) (hx : x ∉ before) : front = before ∧ x = y ∧ back = [] := by
  rcases List.eq_nil_or_concat back with rfl | ⟨back, z, rfl⟩
  · obtain ⟨rfl, hlast⟩ := List.append_inj' h rfl
    exact ⟨rfl, (List.singleton_inj.mp hlast).symm, rfl⟩
  · exfalso
    rw [List.concat_eq_append, ← List.cons_append, ← List.append_assoc] at h
    obtain ⟨rfl, -⟩ := List.append_inj' h rfl
    exact hx (by simp)

/-- A stream that is awaited is the last of its request. -/
theorem streamsOf_settle {stream conn : Nat} {before : List OutboundStream} {n : Try}
    (hbefore : Before n before) (hlist : streamsOf streams i = before ++ [⟨conn, i, none⟩])
    (hstream : streams[stream]? = some ⟨conn, i, none⟩) (outcome : Option (Except TesseraError Message)) :
    streamsOf (streams.modify stream fun s => { s with outcome }) i = before ++ [⟨conn, i, outcome⟩] ∧
      ∀ j ≠ i, streamsOf (streams.modify stream fun s => { s with outcome }) j = streamsOf streams j := by
  have hlt := (List.getElem?_eq_some_iff.mp hstream).1
  obtain ⟨front, s, back, hsplit, hlen, hmodify⟩ :=
    List.exists_of_modify (fun s : OutboundStream => { s with outcome }) hlt
  obtain rfl : s = ⟨conn, i, none⟩ := by
    rw [hsplit, ← hlen, List.getElem?_append_right (Nat.le_refl _), Nat.sub_self] at hstream
    exact Option.some.inj hstream
  rw [hmodify]
  constructor
  · have hparts : before ++ [⟨conn, i, none⟩] = streamsOf front i ++ ⟨conn, i, none⟩ :: streamsOf back i := by
      rw [← hlist, hsplit]
      simp [streamsOf]
    have hpending : (⟨conn, i, none⟩ : OutboundStream) ∉ before := by
      intro hmem
      obtain ⟨e, he, -⟩ := hbefore.weaken.2 _ hmem
      cases he
    obtain ⟨hfront, -, hback⟩ := last_of_append hparts hpending
    unfold streamsOf at hfront hback ⊢
    rw [List.filter_append, hfront, List.filter_cons_of_pos (by simp), hback]
  · intro j hj
    have hneg : ¬i = j := fun h => hj h.symm
    rw [hsplit]
    simp [streamsOf, hneg]

theorem Fits.of_same {streams' : List OutboundStream} {data : Bytes} {pc : RequestPc}
    (h : Fits crates streams i data pc) (hlist : streamsOf streams' i = streamsOf streams i)
    (hget : ∀ (k : Nat) s, streams[k]? = some s → s.request = i → streams'[k]? = some s) :
    Fits crates streams' i data pc := by
  cases pc with
  | lookup n | connecting n | connected n conn | opening n conn =>
    unfold Fits
    rw [hlist]
    exact h
  | awaiting n stream =>
    obtain ⟨before, conn, hbefore, heq, hstream⟩ := h
    exact ⟨before, conn, hbefore, hlist.trans heq, hget _ _ hstream rfl⟩
  | evicting e =>
    unfold Fits
    rw [hlist]
    exact h
  | finished result =>
    cases result with
    | error e | ok msg =>
      unfold Fits
      rw [hlist]
      exact h

end

/-! ## Steps -/

section

variable {crates : Crates} {t : Outbound} {i : Nat}

theorem Journal.setPc (h : Journal crates t) {pc : RequestPc}
    (hpc : ∀ r ∈ t.requests[i]?, Fits crates t.streams i r.data pc) : Journal crates (t.setPc i pc) := by
  refine ⟨?_, ?_⟩
  · intro s hs
    have hlen : (t.setPc i pc).requests.length = t.requests.length := List.length_modify ..
    rw [hlen]
    exact h.known s hs
  · intro j r hr
    rcases getElem?_setPc hr with ⟨hr, -⟩ | ⟨rfl, r', hr', rfl⟩
    · exact h.fits j r hr
    · exact hpc r' hr'

/-- The streams of a request fit another place where the same is known of them. -/
theorem Journal.goes (h : Journal crates t) {r : OutboundRequest} (hr : r ∈ t.requests[i]?) {pc : RequestPc}
    (hpc : Fits crates t.streams i r.data r.pc → Fits crates t.streams i r.data pc) :
    Journal crates (t.setPc i pc) := by
  refine h.setPc fun r' hr' => ?_
  cases Option.mem_unique hr hr'
  exact hpc (h.fits i r hr)

/-- What the journal does not speak of. -/
theorem Journal.congr {t' : Outbound} (h : Journal crates t) (hstreams : t'.streams = t.streams)
    (hrequests : t'.requests = t.requests) : Journal crates t' :=
  ⟨by rw [hstreams, hrequests]; exact h.known, by rw [hstreams, hrequests]; exact h.fits⟩

theorem Journal.lookUp (h : Journal crates t) {r : OutboundRequest} (hr : r ∈ t.requests[i]?) {n : Try}
    (hpc : r.pc = .lookup n) : Journal crates (t.lookUp i r.addr n) := by
  have hmiss : Journal crates (t.setPc i (.connecting n)) := h.goes hr (by rw [hpc]; exact id)
  unfold Outbound.lookUp
  split
  · exact hmiss
  next addr entry _ =>
    split
    · have hhit : Journal crates (t.setPc i (.opening n entry.conn)) := h.goes hr (by rw [hpc]; exact id)
      exact hhit.congr rfl rfl
    · exact hmiss.congr rfl rfl

/-- A failed try, of which the streams are known. -/
theorem Journal.tried (h : Journal crates t) (n : Try) (e : TesseraError)
    (hfirst : n = .first → Fits crates t.streams i [] (.evicting e))
    (hsecond : n = .second → Fits crates t.streams i [] (.finished (.error e))) :
    Journal crates (t.sent i n (.error e)) := by
  cases n with
  | first => exact h.setPc fun _ _ => hfirst rfl
  | second => exact h.setPc fun _ _ => hsecond rfl

theorem Journal.openFails (h : Journal crates t) {r : OutboundRequest} (hr : r ∈ t.requests[i]?) {n : Try}
    {conn : Nat} (hpc : r.pc = .opening n conn) (e : TesseraError) :
    Journal crates (t.sent i n (.error e)) := by
  have hfits := h.fits i r hr
  rw [hpc] at hfits
  refine h.tried n e ?_ ?_
  · rintro rfl
    have hnone : streamsOf t.streams i = [] := hfits
    refine ⟨by rw [hnone]; exact Nat.zero_le _, by rw [hnone]; rintro _ ⟨⟩⟩
  · rintro rfl
    exact Or.inl hfits

theorem Journal.openStream (h : Journal crates t) {r : OutboundRequest} (hr : r ∈ t.requests[i]?) {n : Try}
    {conn : Nat} (hpc : r.pc = .opening n conn) :
    Journal crates { t.setPc i (.awaiting n t.streams.length) with
      streams := t.streams ++ [⟨conn, i, none⟩] } := by
  have hlen : (t.setPc i (.awaiting n t.streams.length)).requests.length = t.requests.length :=
    List.length_modify ..
  have hget (k : Nat) (s : OutboundStream) (hs : t.streams[k]? = some s) :
      (t.streams ++ [⟨conn, i, none⟩])[k]? = some s := by
    rw [List.getElem?_append_left (List.getElem?_eq_some_iff.mp hs).1, hs]
  refine ⟨?_, ?_⟩
  · intro s hs
    dsimp only
    rw [hlen]
    rcases List.mem_append.mp hs with hs | hs
    · exact h.known s hs
    · rw [List.mem_singleton.mp hs]
      exact (List.getElem?_eq_some_iff.mp hr).1
  · intro j r' hr'
    rcases getElem?_setPc hr' with ⟨hr', hij⟩ | ⟨rfl, r'', hr'', rfl⟩
    · refine (h.fits j r' hr').of_same ?_ fun k s hs _ => hget k s hs
      rw [streamsOf_open, if_neg hij]
    · cases Option.mem_unique hr hr''
      have hfits := h.fits i r hr
      rw [hpc] at hfits
      refine ⟨_, conn, hfits, ?_, List.getElem?_concat_length⟩
      rw [streamsOf_open, if_pos rfl]

theorem Journal.exchanged (h : Journal crates t) {r : OutboundRequest} (hr : r ∈ t.requests[i]?) {n : Try}
    {stream : Nat} (hpc : r.pc = .awaiting n stream) (e : Exchange) :
    Journal crates ({ t with streams := t.streams.modify stream fun s =>
      { s with outcome := some (exchange crates r.data e) } }.sent i n (exchange crates r.data e)) := by
  have hfits := h.fits i r hr
  rw [hpc] at hfits
  obtain ⟨before, conn, hbefore, hlist, hstream⟩ := hfits
  generalize hresult : exchange crates r.data e = result
  obtain ⟨hown, hother⟩ := streamsOf_settle hbefore hlist hstream (some result)
  have hget (k : Nat) (s : OutboundStream) (hs : t.streams[k]? = some s) (hne : s.request ≠ i) :
      (t.streams.modify stream fun s => { s with outcome := some result })[k]? = some s := by
    have hk : stream ≠ k := by
      rintro rfl
      cases hs.symm.trans hstream
      exact hne rfl
    rw [List.getElem?_modify_ne _ _ hk, hs]
  have hbrought : Brought (before ++ [⟨conn, i, some result⟩]) result := ⟨n, before, _, hbefore, rfl, rfl⟩
  -- only the journal of the request itself is written
  have hset (pc : RequestPc) (hpc : Fits crates
      (t.streams.modify stream fun s => { s with outcome := some result }) i r.data pc) :
      Journal crates ({ t with streams := t.streams.modify stream fun s =>
        { s with outcome := some result } }.setPc i pc) := by
    refine ⟨?_, ?_⟩
    · intro s hs
      have hlen : (t.setPc i pc).requests.length = t.requests.length := List.length_modify ..
      obtain ⟨k, hk⟩ := List.mem_iff_getElem?.mp hs
      simp only [Outbound.setPc, List.getElem?_modify, Option.map_eq_map, Option.map_eq_some_iff] at hk
      obtain ⟨s', hs', rfl⟩ := hk
      have hold := h.known s' (List.mem_of_getElem? hs')
      refine Nat.lt_of_lt_of_eq ?_ hlen.symm
      split
      · exact hold
      · exact hold
    · intro j r' hr'
      rcases getElem?_setPc hr' with ⟨hr', hij⟩ | ⟨rfl, r'', hr'', rfl⟩
      · refine (h.fits j r' hr').of_same (hother j (Ne.symm hij)) fun k s hs hj => hget k s hs ?_
        rw [hj]
        exact Ne.symm hij
      · cases Option.mem_unique hr hr''
        exact hpc
  unfold Outbound.sent
  split
  next e' =>
    apply hset
    cases hbefore
    refine ⟨by rw [hown]; exact Nat.le_refl _, ?_⟩
    rw [hown]
    intro s hs
    rw [List.mem_singleton.mp hs]
  next =>
    apply hset
    cases result with
    | error e' =>
      refine Or.inr ?_
      rw [hown]
      exact hbrought
    | ok msg =>
      refine ⟨?_, e, hresult⟩
      rw [hown]
      exact hbrought

theorem Journal.evicted (h : Journal crates t) {r : OutboundRequest} (hr : r ∈ t.requests[i]?)
    {e : TesseraError} (hpc : r.pc = .evicting e) :
    Journal crates (if e = .timeout then t.fails i e else t.setPc i (.lookup .second)) := by
  have hfits := h.fits i r hr
  rw [hpc] at hfits
  obtain ⟨hlen, hall⟩ := hfits
  split
  · refine h.setPc fun _ _ => ?_
    rcases List.eq_nil_or_concat (streamsOf t.streams i) with hnil | ⟨before, s, hconcat⟩
    · refine Or.inl ⟨by rw [hnil]; exact Nat.zero_le _, by rw [hnil]; rintro _ ⟨⟩⟩
    · rw [List.concat_eq_append] at hconcat
      have hbefore : before = [] := by
        rw [hconcat, List.length_append, List.length_singleton] at hlen
        exact List.length_eq_zero_iff.mp (by omega)
      refine Or.inr ⟨.first, before, s, hbefore, hconcat, hall s ?_⟩
      rw [hconcat]
      exact List.mem_append_right _ (List.mem_singleton_self s)
  next hne => exact h.setPc fun _ _ => ⟨hlen, fun s hs => ⟨e, hall s hs, hne⟩⟩

theorem Journal.request (h : Journal crates t) (addr : SocketAddr) (data : Bytes) :
    Journal crates { t with requests := t.requests ++ [⟨addr, data, .lookup .first⟩] } := by
  refine ⟨?_, ?_⟩
  · intro s hs
    have hlt := h.known s hs
    simp only [List.length_append, List.length_singleton]
    omega
  · intro i r hr
    rcases getElem?_concat_some hr with hr | ⟨rfl, rfl⟩
    · exact h.fits i r hr
    · -- the streams are of requests with smaller numbers
      refine List.filter_eq_nil_iff.mpr fun s hs => ?_
      have hne := Nat.ne_of_lt (h.known s hs)
      simpa using hne

theorem step_journal (h : Journal crates t) (a : Action) : Journal crates (step crates t a) := by
  cases a with
  | tick d => exact h.congr rfl rfl
  | request addr data => exact h.request addr data
  | lookup i =>
    refine ofRequest_of h fun r hr => ?_
    split
    next hpc => exact h.lookUp hr hpc
    next => exact h
  | connectFails i reason =>
    refine ofRequest_of h fun r hr => ?_
    split
    next hpc => exact h.goes hr (by rw [hpc]; exact fun hbefore => Or.inl hbefore.weaken)
    next => exact h
  | connectTimesOut i =>
    refine ofRequest_of h fun r hr => ?_
    split
    next hpc => exact h.goes hr (by rw [hpc]; exact fun hbefore => Or.inl hbefore.weaken)
    next => exact h
  | connect i =>
    refine ofRequest_of h fun r hr => ?_
    split
    next n hpc =>
      have hset : Journal crates (t.setPc i (.connected n t.conns.length)) :=
        h.goes hr (by rw [hpc]; exact id)
      exact hset.congr rfl rfl
    next => exact h
  | insert i =>
    refine ofRequest_of h fun r hr => ?_
    split
    next n conn hpc =>
      have hset : Journal crates (t.setPc i (.opening n conn)) := h.goes hr (by rw [hpc]; exact id)
      exact hset.congr rfl rfl
    next => exact h
  | openFails i reason =>
    refine ofRequest_of h fun r hr => ?_
    split
    next hpc => exact h.openFails hr hpc _
    next => exact h
  | openStream i =>
    refine ofRequest_of h fun r hr => ?_
    split
    next hpc =>
      split
      · exact h.openStream hr hpc
      · exact h
    next => exact h
  | exchange i e =>
    refine ofRequest_of h fun r hr => ?_
    split
    next hpc => exact h.exchanged hr hpc e
    next => exact h
  | evict i =>
    refine ofRequest_of h fun r hr => ?_
    split
    next e hpc =>
      have hpool : Journal crates { t with pool := t.pool.remove r.addr } := h.congr rfl rfl
      exact hpool.evicted hr hpc
    next => exact h
  | accept addr => exact h.congr rfl rfl
  | cache n =>
    dsimp only [step]
    split
    · split
      · exact h.congr rfl rfl
      · exact h
    · exact h
  | close conn => exact h.congr rfl rfl
  | cleanup => exact h.congr rfl rfl
  | reorder pool =>
    dsimp only [step]
    split
    · exact h.congr rfl rfl
    · exact h

theorem run_journal (crates : Crates) (as : List Action) : Journal crates (run (step crates) empty as) := by
  have hempty : Journal crates empty := ⟨by rintro _ ⟨⟩, by rintro _ _ ⟨⟩⟩
  have hmeets : Meets (step crates) (fun _ _ => True) empty as := meets_of_forall (fun _ _ => trivial) _ _
  exact run_inv (I := Journal crates) (fun _ a h _ => step_journal h a) hempty hmeets

end

/-! ## Results -/

/-- At most two streams, of which all but the last one failed and are retried. -/
def TriedTwice (l : List OutboundStream) : Prop := l.length ≤ 2 ∧ ∀ s ∈ l.dropLast, Retried s

theorem Before.triedTwice {n : Try} {l : List OutboundStream} (h : Before n l) : TriedTwice l :=
  ⟨h.weaken.1.trans (by decide), fun s hs => h.weaken.2 s (List.mem_of_mem_dropLast hs)⟩

theorem triedTwice_concat {n : Try} {before : List OutboundStream} (h : Before n before) (s : OutboundStream) :
    TriedTwice (before ++ [s]) := by
  refine ⟨?_, ?_⟩
  · rw [List.length_append, List.length_singleton]
    exact Nat.succ_le_succ h.weaken.1
  · rw [List.dropLast_concat]
    exact h.weaken.2

theorem Brought.triedTwice {l : List OutboundStream} {result : Except TesseraError Message}
    (h : Brought l result) : TriedTwice l := by
  obtain ⟨n, before, s, hbefore, rfl, -⟩ := h
  exact triedTwice_concat hbefore s

theorem Fits.triedTwice {crates : Crates} {streams : List OutboundStream} {i : Nat} {data : Bytes}
    {pc : RequestPc} (h : Fits crates streams i data pc) : TriedTwice (streamsOf streams i) := by
  cases pc with
  | lookup n | connecting n | connected n conn | opening n conn => exact Before.triedTwice h
  | awaiting n stream =>
    obtain ⟨before, conn, hbefore, heq, -⟩ := h
    rw [heq]
    exact triedTwice_concat hbefore _
  | evicting e =>
    have hdrop : (streamsOf streams i).dropLast = [] := by
      apply List.length_eq_zero_iff.mp
      rw [List.length_dropLast]
      have := h.1
      omega
    refine ⟨h.1.trans (by decide), ?_⟩
    rw [hdrop]
    rintro _ ⟨⟩
  | finished result =>
    cases result with
    | error e =>
      rcases h with h | h
      · exact h.triedTwice
      · exact h.triedTwice
    | ok msg => exact h.1.triedTwice

/-- A response is a whole frame that can be decoded. -/
theorem exchange_ok {crates : Crates} {data : Bytes} {e : Exchange} {msg : Message}
    (h : exchange crates data e = .ok msg) : ∃ stream early resp rest,
      readMessage early stream = .ok (resp, rest) ∧ crates.fromBytes resp = some msg := by
  unfold exchange at h
  cases hwrite : writeMessage data with
  | error e => rw [hwrite] at h; cases h
  | ok frame =>
    rw [hwrite] at h
    cases e with
    | writeFails during reason => cases h
    | finishFails reason => cases h
    | timesOut => cases h
    | receives stream early reason =>
      dsimp only [bind, Except.bind] at h
      split at h
      · cases h
      next resp rest hread =>
        split at h
        · cases h
        next hdecoded =>
          cases h
          exact ⟨stream, early, resp, rest, hread, hdecoded⟩

end TesserasDht.Requests
