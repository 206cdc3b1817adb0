import TesserasDht.Code.Quic
import TesserasDht.Lib.Runs
import TesserasDht.Admission

/-!
# Responses reach the stream that asked

An entry of the map belongs to the only request with its id that is not answered, as long as no id is
used again before its request is answered.
-/

open Lib.Runs Lib.Lists

namespace TesserasDht.Streams

open QuicTransport

/-! ## Requests that are not answered -/

/-- The request of stream `j` has this id, is registered, and is not answered by the node. -/
def Outstanding (t : QuicTransport) (msgId : UInt64) (j : Nat) : Prop :=
  (∃ s ∈ t.streams[j]?, s.pc = .registered ∧ s.msg.msgId = msgId) ∨
    ∃ q ∈ t.requests, q.stream = j ∧ q.msg.msgId = msgId

/-- Some request has this id, is registered, and is not answered. -/
def Unanswered (t : QuicTransport) (msgId : UInt64) : Prop :=
  (∃ s ∈ t.streams, s.pc = .registered ∧ s.msg.msgId = msgId) ∨ ∃ q ∈ t.requests, q.msg.msgId = msgId

instance (t : QuicTransport) (msgId : UInt64) : Decidable (Unanswered t msgId) :=
  inferInstanceAs (Decidable (_ ∨ _))

theorem Outstanding.unanswered {t : QuicTransport} {msgId : UInt64} {j : Nat}
    (h : Outstanding t msgId j) : Unanswered t msgId := by
  rcases h with ⟨s, hs, h⟩ | ⟨q, hq, -, h⟩
  · exact Or.inl ⟨s, List.mem_of_getElem? hs, h⟩
  · exact Or.inr ⟨q, hq, h⟩

/-- No request is registered with the id of one that is not answered. -/
def UsesFreshIds (t : QuicTransport) : Action → Prop
  | .register i => ∀ s ∈ t.streams[i]?, s.pc = .decoded →
    t.inboundResponseSenders.lookup s.msg.msgId = none → ¬Unanswered t s.msg.msgId
  | _ => True

instance (t : QuicTransport) : (a : Action) → Decidable (UsesFreshIds t a)
  | .register i => inferInstanceAs (Decidable (∀ s ∈ t.streams[i]?, _))
  | .accept _ | .forward _ | .forwardFails _ | .receive _ | .giveUp _ | .cleanUp _ | .write _
  | .writeFails _ | .respond _ _ | .ignore _ => isTrue trivial

/-! ## The invariant -/

/-- The response is one that the node produced for the request of stream `i`. -/
def Answers (ctx : HandlerContext) (i : Nat) (s : InboundStream) (r : Response) : Prop :=
  ∃ payload, r = answerTo ctx ⟨i, s.msg⟩ payload

structure Paired (ctx : HandlerContext) (t : QuicTransport) : Prop where
  oneshots : ∀ i, ∀ s ∈ t.streams[i]?, ∀ r ∈ s.oneshot, Answers ctx i s r
  taken : ∀ i, ∀ s ∈ t.streams[i]?, ∀ r, s.pc = .received r ∨ s.pc = .wrote r → Answers ctx i s r
  requests : ∀ q ∈ t.requests, ∃ s ∈ t.streams[q.stream]?, s.msg = q.msg
  entries : ∀ e ∈ t.inboundResponseSenders, ∀ j, Outstanding t e.1 j → j = e.2

section

variable {ctx : HandlerContext} {t : QuicTransport}

theorem getElem?_setPc {i j : Nat} {pc : StreamPc} {s : InboundStream}
    (h : s ∈ (t.setPc i pc).streams[j]?) :
    s ∈ t.streams[j]? ∧ i ≠ j ∨ i = j ∧ ∃ s' ∈ t.streams[j]?, s = { s' with pc } := by
  simp only [setPc, List.getElem?_modify, Option.mem_def, Option.map_eq_map, Option.map_eq_some_iff] at h
  obtain ⟨s', hs', rfl⟩ := h
  by_cases hij : i = j
  · exact Or.inr ⟨hij, s', hs', by rw [if_pos hij]⟩
  · rw [if_neg hij]
    exact Or.inl ⟨hs', hij⟩

theorem mem_setPc (i : Nat) (pc : StreamPc) {j : Nat} {s : InboundStream} (h : s ∈ t.streams[j]?) :
    ∃ s' ∈ (t.setPc i pc).streams[j]?, s'.msg = s.msg := by
  simp only [setPc, List.getElem?_modify, Option.mem_def, Option.map_eq_map] at h ⊢
  rw [h]
  refine ⟨_, rfl, ?_⟩
  split
  · rfl
  · rfl

theorem outstanding_setPc {i j : Nat} {pc : StreamPc} {msgId : UInt64}
    (h : Outstanding (t.setPc i pc) msgId j) :
    Outstanding t msgId j ∨ i = j ∧ pc = .registered ∧ ∃ s ∈ t.streams[i]?, s.msg.msgId = msgId := by
  rcases h with ⟨s, hs, hreg, hid⟩ | hq
  · rcases getElem?_setPc hs with ⟨hs, -⟩ | ⟨rfl, s', hs', rfl⟩
    · exact Or.inl (Or.inl ⟨s, hs, hreg, hid⟩)
    · exact Or.inr ⟨rfl, hreg, s', hs', hid⟩
  · exact Or.inl (Or.inr hq)

theorem Paired.setPc_with (h : Paired ctx t) {i : Nat} {pc : StreamPc}
    (htaken : ∀ s ∈ t.streams[i]?, ∀ r, pc = .received r ∨ pc = .wrote r → Answers ctx i s r)
    {senders : List (UInt64 × Nat)}
    (hentries : ∀ e ∈ senders, ∀ j, Outstanding (t.setPc i pc) e.1 j → j = e.2) :
    Paired ctx { t.setPc i pc with inboundResponseSenders := senders } := by
  refine ⟨?_, ?_, ?_, hentries⟩
  · intro j s hs r hr
    rcases getElem?_setPc hs with ⟨hs, -⟩ | ⟨-, s', hs', rfl⟩
    · exact h.oneshots j s hs r hr
    · exact h.oneshots j s' hs' r hr
  · intro j s hs r hr
    rcases getElem?_setPc hs with ⟨hs, -⟩ | ⟨rfl, s', hs', rfl⟩
    · exact h.taken j s hs r hr
    · exact htaken s' hs' r hr
  · intro q hq
    obtain ⟨s, hs, hmsg⟩ := h.requests q hq
    obtain ⟨s', hs', hsame⟩ := mem_setPc i pc hs
    exact ⟨s', hs', hsame.trans hmsg⟩

theorem Paired.setPc (h : Paired ctx t) {i : Nat} {pc : StreamPc} (hpc : pc ≠ .registered)
    (htaken : ∀ s ∈ t.streams[i]?, ∀ r, pc = .received r ∨ pc = .wrote r → Answers ctx i s r) :
    Paired ctx (t.setPc i pc) := by
  refine h.setPc_with htaken fun e he j hj => ?_
  rcases outstanding_setPc hj with hj | ⟨-, hreg, -⟩
  · exact h.entries e he j hj
  · exact absurd hreg hpc

theorem Paired.remove (h : Paired ctx t) (msgId : UInt64) : Paired ctx (t.remove msgId) :=
  ⟨h.oneshots, h.taken, h.requests, fun e he => h.entries e (List.mem_of_mem_filter he)⟩

theorem Paired.erase (h : Paired ctx t) (n : Nat) :
    Paired ctx { t with requests := t.requests.eraseIdx n } := by
  refine ⟨h.oneshots, h.taken, fun q hq => h.requests q (List.mem_of_mem_eraseIdx hq), ?_⟩
  intro e he j hj
  apply h.entries e he j
  rcases hj with hs | ⟨q, hq, hj⟩
  · exact Or.inl hs
  · exact Or.inr ⟨q, List.mem_of_mem_eraseIdx hq, hj⟩

/-! ## Steps -/

theorem answerTo_msgId (q : PendingRequest) (payload : Payload) :
    (answerTo ctx q payload).msg.msgId = q.msg.msgId := by
  unfold answerTo Message.sign
  dsimp only
  split
  · rfl
  · rfl

theorem accept_paired (h : Paired ctx t) (msg : Message) :
    Paired ctx { t with streams := t.streams ++ [⟨msg, none, .decoded⟩] } := by
  have hold {j : Nat} {s : InboundStream} (hs : s ∈ (t.streams ++ [⟨msg, none, .decoded⟩])[j]?) :
      s ∈ t.streams[j]? ∨ s = ⟨msg, none, .decoded⟩ := by
    rcases getElem?_concat_some hs with hs | ⟨-, hs⟩
    · exact Or.inl hs
    · exact Or.inr hs
  refine ⟨?_, ?_, ?_, ?_⟩
  · intro j s hs r hr
    rcases hold hs with hs | rfl
    · exact h.oneshots j s hs r hr
    · cases hr
  · intro j s hs r hr
    rcases hold hs with hs | rfl
    · exact h.taken j s hs r hr
    · rcases hr with ⟨⟨⟩⟩ | ⟨⟨⟩⟩
  · intro q hq
    obtain ⟨s, hs, hmsg⟩ := h.requests q hq
    have hlt := (List.getElem?_eq_some_iff.mp hs).1
    exact ⟨s, by rw [List.getElem?_append_left hlt]; exact hs, hmsg⟩
  · intro e he j hj
    apply h.entries e he j
    rcases hj with ⟨s, hs, hreg, hid⟩ | hq
    · rcases hold hs with hs | rfl
      · exact Or.inl ⟨s, hs, hreg, hid⟩
      · cases hreg
    · exact Or.inr hq

theorem register_paired (h : Paired ctx t) {i : Nat} {s : InboundStream} (hs : s ∈ t.streams[i]?)
    (hok : t.inboundResponseSenders.lookup s.msg.msgId = none → ¬Unanswered t s.msg.msgId) :
    Paired ctx (t.register i s) := by
  have hclosed : Paired ctx (t.setPc i .closed) :=
    h.setPc (by rintro ⟨⟩) (by rintro _ _ _ (⟨⟨⟩⟩ | ⟨⟨⟩⟩))
  unfold register
  split
  · exact hclosed
  · split
    · exact hclosed
    next hlookup =>
      have hnone : t.inboundResponseSenders.lookup s.msg.msgId = none :=
        Option.not_isSome_iff_eq_none.mp hlookup
      refine h.setPc_with (by rintro _ _ _ (⟨⟨⟩⟩ | ⟨⟨⟩⟩)) fun e he j hj => ?_
      rcases outstanding_setPc hj with hj | ⟨rfl, -, s', hs', hid⟩
      · rcases List.mem_cons.mp he with rfl | he
        · -- no other request has the id
          exact absurd hj.unanswered (hok hnone)
        · exact h.entries e he j hj
      · rcases List.mem_cons.mp he with rfl | he
        · rfl
        · -- the id would be in the map
          cases Option.mem_unique hs hs'
          have hne := List.lookup_eq_none_iff.mp hnone e he
          rw [hid] at hne
          simp at hne

theorem forward_paired (h : Paired ctx t) {i : Nat} {s : InboundStream} (hs : s ∈ t.streams[i]?)
    (hpc : s.pc = .registered) :
    Paired ctx { t.setPc i .waiting with requests := t.requests ++ [⟨i, s.msg⟩] } := by
  have hset : Paired ctx (t.setPc i .waiting) :=
    h.setPc (by rintro ⟨⟩) (by rintro _ _ _ (⟨⟨⟩⟩ | ⟨⟨⟩⟩))
  refine ⟨hset.oneshots, hset.taken, ?_, ?_⟩
  · intro q hq
    rcases List.mem_append.mp hq with hq | hq
    · exact hset.requests q hq
    · rw [List.mem_singleton.mp hq]
      exact mem_setPc _ _ hs
  · intro e he j hj
    rcases hj with hreg | ⟨q, hq, rfl, hid⟩
    · exact hset.entries e he j (Or.inl hreg)
    · rcases List.mem_append.mp hq with hq | hq
      · exact hset.entries e he q.stream (Or.inr ⟨q, hq, rfl, hid⟩)
      · -- the request was outstanding while it was registered
        rw [List.mem_singleton.mp hq] at hid ⊢
        exact h.entries e he i (Or.inl ⟨s, hs, hpc, hid⟩)

theorem respond_paired (h : Paired ctx t) {n : Nat} {q : PendingRequest}
    (hq : t.requests[n]? = some q) (payload : Payload) :
    Paired ctx (({ t with requests := t.requests.eraseIdx n }).sendResponse
      (answerTo ctx q payload)) := by
  have herase := h.erase n
  unfold sendResponse
  split
  · exact herase
  next k hk =>
    rw [answerTo_msgId] at hk ⊢
    have hmem := List.mem_of_getElem? hq
    have hentry : (q.msg.msgId, k) ∈ t.inboundResponseSenders := by
      obtain ⟨l₁, l₂, heq, -⟩ := List.lookup_eq_some_iff.mp hk
      change t.inboundResponseSenders = _ at heq
      rw [heq]
      simp
    obtain rfl : q.stream = k := h.entries _ hentry q.stream (Or.inr ⟨q, hmem, rfl, rfl⟩)
    have hremove := herase.remove q.msg.msgId
    have hold {j : Nat} {s : InboundStream} (hs : s ∈ (t.streams.modify q.stream fun s =>
        if listens s then { s with oneshot := some (answerTo ctx q payload) } else s)[j]?) :
        ∃ s' ∈ t.streams[j]?, s.msg = s'.msg ∧ s.pc = s'.pc ∧
          (s.oneshot = s'.oneshot ∨ q.stream = j ∧ s.oneshot = some (answerTo ctx q payload)) := by
      simp only [List.getElem?_modify, Option.mem_def, Option.map_eq_map,
        Option.map_eq_some_iff] at hs
      obtain ⟨s', hs', rfl⟩ := hs
      refine ⟨s', hs', ?_⟩
      split
      next hj =>
        split
        · exact ⟨rfl, rfl, Or.inr ⟨hj, rfl⟩⟩
        · exact ⟨rfl, rfl, Or.inl rfl⟩
      next => exact ⟨rfl, rfl, Or.inl rfl⟩
    refine ⟨?_, ?_, ?_, ?_⟩
    · intro j s hs r hr
      obtain ⟨s', hs', hmsg, -, hone | ⟨rfl, hone⟩⟩ := hold hs
      · rw [Answers, hmsg]
        exact h.oneshots j s' hs' r (hone ▸ hr)
      · rw [hone] at hr
        obtain ⟨s'', hs'', hsame⟩ := h.requests q hmem
        cases Option.mem_unique hs' hs''
        refine ⟨payload, ?_⟩
        rw [← Option.mem_some_iff.mp hr, hmsg, hsame]
    · intro j s hs r hr
      obtain ⟨s', hs', hmsg, hpc, -⟩ := hold hs
      rw [Answers, hmsg]
      rw [hpc] at hr
      exact h.taken j s' hs' r hr
    · intro q' hq'
      obtain ⟨s', hs', hsame⟩ := hremove.requests q' hq'
      simp only [List.getElem?_modify, Option.mem_def, Option.map_eq_map] at hs' ⊢
      rw [hs']
      refine ⟨_, rfl, ?_⟩
      split
      · dsimp only
        split
        · exact hsame
        · exact hsame
      · exact hsame
    · intro e he j hj
      apply hremove.entries e he j
      rcases hj with ⟨s, hs, hreg, hid⟩ | hj
      · obtain ⟨s', hs', hmsg, hpc, -⟩ := hold hs
        exact Or.inl ⟨s', hs', hpc ▸ hreg, hmsg ▸ hid⟩
      · exact Or.inr hj

theorem atPc_paired {i : Nat} {pc : StreamPc} {f : InboundStream → QuicTransport}
    (h : Paired ctx t) (hf : ∀ s ∈ t.streams[i]?, s.pc = pc → Paired ctx (f s)) :
    Paired ctx (t.atPc i pc f) := by
  unfold atPc
  split
  next s hs =>
    split
    next hpc => exact hf s hs hpc
    next => exact h
  next => exact h

theorem step_paired (t : QuicTransport) (a : Action) (h : Paired ctx t) (hok : UsesFreshIds t a) :
    Paired ctx (step ctx t a) := by
  have hquiet (i : Nat) (pc : StreamPc) (hpc : pc = .givenUp ∨ pc = .closed) :
      Paired ctx (t.setPc i pc) := by
    rcases hpc with rfl | rfl
    · exact h.setPc (by rintro ⟨⟩) (by rintro _ _ _ (⟨⟨⟩⟩ | ⟨⟨⟩⟩))
    · exact h.setPc (by rintro ⟨⟩) (by rintro _ _ _ (⟨⟨⟩⟩ | ⟨⟨⟩⟩))
  cases a with
  | accept msg => exact accept_paired h msg
  | register i => exact atPc_paired h fun s hs hpc => register_paired h hs (hok s hs hpc)
  | forward i => exact atPc_paired h fun s hs hpc => forward_paired h hs hpc
  | forwardFails i => exact atPc_paired h fun s _ _ => hquiet i _ (Or.inl rfl)
  | receive i =>
    refine atPc_paired h fun s hs _ => ?_
    split
    next resp hone =>
      refine h.setPc (by rintro ⟨⟩) fun s' hs' r hr => ?_
      cases Option.mem_unique hs hs'
      rcases hr with ⟨⟨⟩⟩ | ⟨⟨⟩⟩
      exact h.oneshots i s hs resp hone
    next => exact h
  | giveUp i =>
    refine atPc_paired h fun s _ _ => ?_
    split
    · exact h
    · exact hquiet i _ (Or.inl rfl)
  | cleanUp i => exact atPc_paired h fun s _ _ => (hquiet i _ (Or.inr rfl)).remove _
  | write i =>
    dsimp only [step]
    split
    next msg oneshot resp hs =>
      refine h.setPc (by rintro ⟨⟩) fun s' hs' r hr => ?_
      cases Option.mem_unique hs hs'
      rcases hr with ⟨⟨⟩⟩ | ⟨⟨⟩⟩
      exact h.taken i _ hs resp (Or.inl rfl)
    next => exact h
  | writeFails i =>
    dsimp only [step]
    split
    · exact hquiet i _ (Or.inr rfl)
    · exact h
  | respond n payload =>
    dsimp only [step]
    split
    next q hq => exact respond_paired h hq payload
    next => exact h
  | ignore n => exact h.erase n

/-- In a run in which no id is used again before its request is answered, what is written on a stream
is an answer of the node to the request of that stream. -/
theorem responses_paired (ctx : HandlerContext) (as : List Action)
    (hfresh : Meets (step ctx) UsesFreshIds empty as) (i : Nat) (s : InboundStream) (resp : Response)
    (hs : (run (step ctx) empty as).streams[i]? = some s) (hwrote : s.pc = .wrote resp) :
    Answers ctx i s resp := by
  have hempty : Paired ctx empty := by
    refine ⟨?_, ?_, ?_, ?_⟩
    · rintro j s ⟨⟩
    · rintro j s ⟨⟩
    · rintro q ⟨⟩
    · rintro e ⟨⟩
  have hpaired := run_inv step_paired hempty hfresh
  exact hpaired.taken i s hs resp (Or.inr hwrote)

end

/-! ## An id that is used again -/

open Admission

/-- Two requests with the id 7. -/
def pingSeven : Message := messageOf key1 7 .pingRequest []

def findSeven : Message := messageOf key2 7 (.findNodeRequest (Sha256.digest [7])) []

/-- The first request is answered before the second comes. -/
def answeredFirst : List Action :=
  [.accept pingSeven, .register 0, .forward 0, .respond 0 (.pingResponse none), .receive 0, .write 0,
    .accept findSeven, .register 1, .forward 1, .respond 0 (.findNodeResponse []), .receive 1, .write 1]

theorem responses_paired_seven :
    ((run (step (contextWith putCrates)) empty answeredFirst).streams.map fun s => s.pc) =
      [.wrote (answerTo (contextWith putCrates) ⟨0, pingSeven⟩ (.pingResponse none)),
        .wrote (answerTo (contextWith putCrates) ⟨1, findSeven⟩ (.findNodeResponse []))] ∧
    ∃ s resp, (run (step (contextWith putCrates)) empty answeredFirst).streams[1]? = some s ∧
      Answers (contextWith putCrates) 1 s resp := by
  have hrun : (run (step (contextWith putCrates)) empty answeredFirst).streams[1]? =
      some ⟨findSeven, some (answerTo (contextWith putCrates) ⟨1, findSeven⟩ (.findNodeResponse [])),
        .wrote (answerTo (contextWith putCrates) ⟨1, findSeven⟩ (.findNodeResponse []))⟩ := by
    decide +kernel
  refine ⟨by decide +kernel, _,
    answerTo (contextWith putCrates) ⟨1, findSeven⟩ (.findNodeResponse []), hrun, ?_⟩
  exact responses_paired (contextWith putCrates) answeredFirst (by decide +kernel) 1 _ _ hrun rfl

/-- The first stream gives up, and the handler of its request ends after the second stream came. -/
def answeredLate : List Action :=
  [.accept pingSeven, .register 0, .forward 0, .giveUp 0, .cleanUp 0, .accept findSeven, .register 1,
    .forward 1, .respond 0 (.pingResponse none), .receive 1, .write 1]

/-- The second stream gets the response to the first request. -/
theorem late_response_crosses :
    (run (step (contextWith putCrates)) empty answeredLate).streams[1]? =
      some ⟨findSeven, some (answerTo (contextWith putCrates) ⟨0, pingSeven⟩ (.pingResponse none)),
        .wrote (answerTo (contextWith putCrates) ⟨0, pingSeven⟩ (.pingResponse none))⟩ ∧
    ∀ payload, answerTo (contextWith putCrates) ⟨0, pingSeven⟩ (.pingResponse none) ≠
      answerTo (contextWith putCrates) ⟨1, findSeven⟩ payload := by
  refine ⟨by decide +kernel, fun payload h => ?_⟩
  cases congrArg Response.stream h

end TesserasDht.Streams
