import TesserasDht.Streams

/-!
# The map of the streams that wait

An entry of `inbound_response_senders` is taken out by whoever answers, or by the task of its stream at
the end. So the map is not left with entries of streams that are gone, and a response finds its stream.
-/

open Lib.Runs Lib.Lists

namespace TesserasDht.PendingResponses

open QuicTransport Streams

/-! ## One step -/

/-- The steps of a stream that do not touch the map. -/
inductive Turns (s : InboundStream) : StreamPc → Prop
  | refused (h : s.pc = .decoded) : Turns s .closed
  | forwardFailed (h : s.pc = .registered) : Turns s .givenUp
  | receives (r : Response) (h : s.pc = .waiting) (hone : s.oneshot = some r) : Turns s (.received r)
  | timedOut (h : s.pc = .waiting) (hone : s.oneshot = none) : Turns s .givenUp
  | writes (r : Response) (h : s.pc = .received r) : Turns s (.wrote r)
  | writeFailed (r : Response) (h : s.pc = .received r) : Turns s .closed

/-- The response is in the channel, if the stream listens. -/
def hears (resp : Response) (s : InboundStream) : InboundStream :=
  if listens s then { s with oneshot := some resp } else s

def deliver (t : QuicTransport) (k : Nat) (resp : Response) : QuicTransport :=
  { t.remove resp.msg.msgId with streams := t.streams.modify k (hears resp) }

def handled (t : QuicTransport) (n : Nat) : QuicTransport := { t with requests := t.requests.eraseIdx n }

/-- The ways in which a step ends. Only a stream that registers adds an entry. -/
inductive StepEnd (ctx : HandlerContext) (t : QuicTransport) (a : Action) : QuicTransport → Prop
  | unchanged : StepEnd ctx t a t
  | accepted (msg : Message) : StepEnd ctx t a { t with streams := t.streams ++ [⟨msg, none, .decoded⟩] }
  | turned (i : Nat) (s : InboundStream) (pc : StreamPc) (hs : t.streams[i]? = some s) (hpc : Turns s pc) :
    StepEnd ctx t a (t.setPc i pc)
  | registered (i : Nat) (s : InboundStream) (hs : t.streams[i]? = some s) (hpc : s.pc = .decoded)
    (hroom : t.inboundResponseSenders.length < maxPendingResponses)
    (hnew : t.inboundResponseSenders.lookup s.msg.msgId = none) (ha : a = .register i) :
    StepEnd ctx t a { t.setPc i .registered with
      inboundResponseSenders := (s.msg.msgId, i) :: t.inboundResponseSenders }
  | forwarded (i : Nat) (s : InboundStream) (hs : t.streams[i]? = some s) (hpc : s.pc = .registered) :
    StepEnd ctx t a { t.setPc i .waiting with requests := t.requests ++ [⟨i, s.msg⟩] }
  | cleaned (i : Nat) (s : InboundStream) (hs : t.streams[i]? = some s) (hpc : s.pc = .givenUp) :
    StepEnd ctx t a ((t.setPc i .closed).remove s.msg.msgId)
  | answered (n k : Nat) (q : PendingRequest) (payload : Payload) (hq : t.requests[n]? = some q)
    (hk : t.inboundResponseSenders.lookup q.msg.msgId = some k) :
    StepEnd ctx t a (deliver (handled t n) k (answerTo ctx q payload))
  | dropped (n : Nat) : StepEnd ctx t a (handled t n)

section

variable {ctx : HandlerContext} {t : QuicTransport} {a : Action}

theorem atPc_end {i : Nat} {pc : StreamPc} {f : InboundStream → QuicTransport}
    (h : ∀ s, t.streams[i]? = some s → s.pc = pc → StepEnd ctx t a (f s)) : StepEnd ctx t a (t.atPc i pc f) := by
  unfold atPc
  split
  next s hs =>
    split
    next hpc => exact h s hs hpc
    next => exact .unchanged
  next => exact .unchanged

theorem register_end {i : Nat} {s : InboundStream} (hs : t.streams[i]? = some s) (hpc : s.pc = .decoded) :
    StepEnd ctx t (.register i) (t.register i s) := by
  unfold register
  split
  next => exact .turned i s _ hs (.refused hpc)
  next hroom =>
    split
    next => exact .turned i s _ hs (.refused hpc)
    next hnew =>
      exact .registered i s hs hpc (Nat.not_le.mp hroom) (Option.not_isSome_iff_eq_none.mp hnew) rfl

theorem respond_end {n : Nat} {q : PendingRequest} (hq : t.requests[n]? = some q) (payload : Payload) :
    StepEnd ctx t a ((handled t n).sendResponse (answerTo ctx q payload)) := by
  unfold sendResponse
  split
  next => exact .dropped n
  next k hk =>
    rw [answerTo_msgId] at hk
    exact .answered n k q payload hq hk

theorem step_end (ctx : HandlerContext) (t : QuicTransport) (a : Action) : StepEnd ctx t a (step ctx t a) := by
  cases a with
  | accept msg => exact .accepted msg
  | register i => exact atPc_end fun s hs hpc => register_end hs hpc
  | forward i => exact atPc_end fun s hs hpc => .forwarded i s hs hpc
  | forwardFails i => exact atPc_end fun s hs hpc => .turned i s _ hs (.forwardFailed hpc)
  | receive i =>
    refine atPc_end fun s hs hpc => ?_
    split
    next r hone => exact .turned i s _ hs (.receives r hpc hone)
    next => exact .unchanged
  | giveUp i =>
    refine atPc_end fun s hs hpc => ?_
    split
    next => exact .unchanged
    next hone => exact .turned i s _ hs (.timedOut hpc hone)
  | cleanUp i => exact atPc_end fun s hs hpc => .cleaned i s hs hpc
  | write i =>
    dsimp only [step]
    split
    next hs => exact .turned i _ _ hs (.writes _ rfl)
    next => exact .unchanged
  | writeFails i =>
    dsimp only [step]
    split
    next hs => exact .turned i _ _ hs (.writeFailed _ rfl)
    next => exact .unchanged
  | respond n payload =>
    dsimp only [step]
    split
    next q hq => exact respond_end hq payload
    next => exact .unchanged
  | ignore n => exact .dropped n

end

/-! ## Streams that change -/

section

variable {t : QuicTransport}

theorem getElem?_setPc_self {i : Nat} {s : InboundStream} (pc : StreamPc) (hs : t.streams[i]? = some s) :
    (t.setPc i pc).streams[i]? = some { s with pc } := by
  rw [setPc, List.getElem?_modify_eq, hs]
  rfl

theorem getElem?_setPc_ne {i j : Nat} (pc : StreamPc) (h : i ≠ j) :
    (t.setPc i pc).streams[j]? = t.streams[j]? := List.getElem?_modify_ne _ _ h

theorem getElem?_deliver_self {k : Nat} {s : InboundStream} (resp : Response) (hs : t.streams[k]? = some s) :
    (deliver t k resp).streams[k]? = some (hears resp s) := by
  rw [deliver, List.getElem?_modify_eq, hs]
  rfl

theorem getElem?_deliver_ne {k j : Nat} (resp : Response) (h : k ≠ j) :
    (deliver t k resp).streams[j]? = t.streams[j]? := List.getElem?_modify_ne _ _ h

theorem hears_pc (resp : Response) (s : InboundStream) : (hears resp s).pc = s.pc := by
  unfold hears
  split_ifs <;> rfl

theorem hears_msg (resp : Response) (s : InboundStream) : (hears resp s).msg = s.msg := by
  unfold hears
  split_ifs <;> rfl

end

/-! ## Nothing is left behind -/

/-- The stream has no response, and waits for one or is about to clean up. -/
def Holds (s : InboundStream) : Prop :=
  s.oneshot = none ∧ (s.pc = .registered ∨ s.pc = .waiting ∨ s.pc = .givenUp)

structure Live (t : QuicTransport) : Prop where
  ids : (t.inboundResponseSenders.map Prod.fst).Nodup
  room : t.inboundResponseSenders.length ≤ maxPendingResponses
  entries : ∀ e ∈ t.inboundResponseSenders, ∃ s ∈ t.streams[e.2]?, s.msg.msgId = e.1 ∧ Holds s
  silent : ∀ (i : Nat), ∀ s ∈ t.streams[i]?, s.pc = .decoded → s.oneshot = none

section

variable {ctx : HandlerContext} {t t' : QuicTransport}

/-- The map loses entries, and the streams of the others go on. -/
theorem Live.frame (h : Live t) (hsub : t'.inboundResponseSenders.Sublist t.inboundResponseSenders)
    (hstreams : ∀ e ∈ t'.inboundResponseSenders, ∀ s ∈ t.streams[e.2]?, s.msg.msgId = e.1 → Holds s →
      ∃ s' ∈ t'.streams[e.2]?, s'.msg = s.msg ∧ Holds s')
    (hsilent : ∀ (i : Nat), ∀ s ∈ t'.streams[i]?, s.pc = .decoded → s.oneshot = none) : Live t' where
  ids := h.ids.sublist (hsub.map _)
  room := Nat.le_trans hsub.length_le h.room
  entries e he := by
    obtain ⟨s, hs, hid, hholds⟩ := h.entries e (hsub.subset he)
    obtain ⟨s', hs', hmsg, hholds'⟩ := hstreams e he s hs hid hholds
    exact ⟨s', hs', hmsg ▸ hid, hholds'⟩
  silent := hsilent

/-- A stream goes on from where it stands, and its entry stays only if it has yet to see to it. -/
theorem Live.setPc (h : Live t) {i : Nat} {s : InboundStream} {pc : StreamPc} (hs : t.streams[i]? = some s)
    (hpc : pc ≠ .decoded) (hholds : Holds s → Holds { s with pc }) : Live (t.setPc i pc) := by
  refine h.frame (List.Sublist.refl _) (fun e _ s' hs' _ hs'holds => ?_) fun j s' hs' hdecoded => ?_
  · by_cases hi : i = e.2
    · subst hi
      cases Option.mem_unique hs hs'
      exact ⟨_, getElem?_setPc_self pc hs, rfl, hholds hs'holds⟩
    · exact ⟨s', (getElem?_setPc_ne pc hi).trans hs', rfl, hs'holds⟩
  · rcases getElem?_setPc hs' with ⟨hs', -⟩ | ⟨-, s'', -, rfl⟩
    · exact h.silent j s' hs' hdecoded
    · exact absurd hdecoded hpc

theorem Turns.holds {s : InboundStream} {pc : StreamPc} (h : Turns s pc) :
    pc ≠ .decoded ∧ (Holds s → Holds { s with pc }) := by
  cases h with
  | refused h => exact ⟨by rintro ⟨⟩, fun hholds => by simp [Holds, h] at hholds⟩
  | forwardFailed h => exact ⟨by rintro ⟨⟩, fun hholds => ⟨hholds.1, Or.inr (Or.inr rfl)⟩⟩
  | receives r h hone => exact ⟨by rintro ⟨⟩, fun hholds => by simp [Holds, hone] at hholds⟩
  | timedOut h hone => exact ⟨by rintro ⟨⟩, fun hholds => ⟨hholds.1, Or.inr (Or.inr rfl)⟩⟩
  | writes r h => exact ⟨by rintro ⟨⟩, fun hholds => by simp [Holds, h] at hholds⟩
  | writeFailed r h => exact ⟨by rintro ⟨⟩, fun hholds => by simp [Holds, h] at hholds⟩

theorem registered_live (h : Live t) {i : Nat} {s : InboundStream} (hs : t.streams[i]? = some s)
    (hpc : s.pc = .decoded) (hroom : t.inboundResponseSenders.length < maxPendingResponses)
    (hnew : t.inboundResponseSenders.lookup s.msg.msgId = none) :
    Live { t.setPc i .registered with
      inboundResponseSenders := (s.msg.msgId, i) :: t.inboundResponseSenders } := by
  have hset : Live (t.setPc i .registered) :=
    h.setPc hs (by rintro ⟨⟩) fun hholds => by simp [Holds, hpc] at hholds
  refine ⟨?_, Nat.succ_le_of_lt hroom, ?_, hset.silent⟩
  · refine List.nodup_cons.mpr ⟨fun hmem => ?_, h.ids⟩
    obtain ⟨e, he, hid⟩ := List.mem_map.mp hmem
    have hne := List.lookup_eq_none_iff.mp hnew e he
    simp [hid] at hne
  · intro e he
    rcases List.mem_cons.mp he with rfl | he
    · exact ⟨_, getElem?_setPc_self .registered hs, rfl, h.silent i s hs hpc, Or.inl rfl⟩
    · exact hset.entries e he

theorem cleaned_live (h : Live t) {i : Nat} {s : InboundStream} (hs : t.streams[i]? = some s) :
    Live ((t.setPc i .closed).remove s.msg.msgId) := by
  refine h.frame List.filter_sublist (fun e he s' hs' hid hholds => ?_) fun j s' hs' hdecoded => ?_
  · -- the entry of the stream itself is gone
    have hne : e.1 ≠ s.msg.msgId := by simpa using (List.mem_filter.mp he).2
    by_cases hi : i = e.2
    · subst hi
      cases Option.mem_unique hs hs'
      exact absurd hid.symm hne
    · exact ⟨s', (getElem?_setPc_ne .closed hi).trans hs', rfl, hholds⟩
  · rcases getElem?_setPc hs' with ⟨hs', -⟩ | ⟨-, s'', -, rfl⟩
    · exact h.silent j s' hs' hdecoded
    · cases hdecoded

theorem handled_live (h : Live t) (n : Nat) : Live (handled t n) := ⟨h.ids, h.room, h.entries, h.silent⟩

theorem mem_of_lookup {l : List (UInt64 × Nat)} {msgId : UInt64} {k : Nat} (h : l.lookup msgId = some k) :
    (msgId, k) ∈ l := by
  obtain ⟨l₁, l₂, heq, -⟩ := List.lookup_eq_some_iff.mp h
  rw [heq]
  simp

theorem deliver_live (h : Live t) {k : Nat} {resp : Response}
    (hk : t.inboundResponseSenders.lookup resp.msg.msgId = some k) : Live (deliver t k resp) := by
  obtain ⟨s, hs, hid, -, hpc⟩ := h.entries _ (mem_of_lookup hk)
  refine h.frame List.filter_sublist (fun e he s' hs' hid' hholds => ?_) fun j s' hs' hdecoded => ?_
  · have hne : e.1 ≠ resp.msg.msgId := by simpa using (List.mem_filter.mp he).2
    by_cases hj : k = e.2
    · subst hj
      cases Option.mem_unique hs hs'
      exact absurd (hid'.symm.trans hid) hne
    · exact ⟨s', (getElem?_deliver_ne resp hj).trans hs', rfl, hholds⟩
  · by_cases hj : k = j
    · subst hj
      rw [getElem?_deliver_self resp hs] at hs'
      cases hs'
      rw [hears_pc] at hdecoded
      rw [hdecoded] at hpc
      rcases hpc with ⟨⟨⟩⟩ | ⟨⟨⟩⟩ | ⟨⟨⟩⟩
    · rw [getElem?_deliver_ne resp hj] at hs'
      exact h.silent j s' hs' hdecoded

theorem accepted_live (h : Live t) (msg : Message) :
    Live { t with streams := t.streams ++ [⟨msg, none, .decoded⟩] } := by
  refine h.frame (List.Sublist.refl _) (fun e _ s hs _ hholds => ⟨s, ?_, rfl, hholds⟩) fun j s hs hdecoded => ?_
  · exact (List.getElem?_append_left (List.getElem?_eq_some_iff.mp hs).1).trans hs
  · rcases getElem?_concat_some hs with hs | ⟨-, rfl⟩
    · exact h.silent j s hs hdecoded
    · rfl

theorem step_live (t : QuicTransport) (a : Action) (h : Live t) : Live (step ctx t a) := by
  have hend := step_end ctx t a
  generalize step ctx t a = t' at hend ⊢
  cases hend with
  | unchanged => exact h
  | accepted msg => exact accepted_live h msg
  | turned i s pc hs hpc => exact h.setPc hs hpc.holds.1 hpc.holds.2
  | registered i s hs hpc hroom hnew _ => exact registered_live h hs hpc hroom hnew
  | forwarded i s hs hpc =>
    have hset : Live (t.setPc i .waiting) :=
      h.setPc hs (by rintro ⟨⟩) fun hholds => ⟨hholds.1, Or.inr (Or.inl rfl)⟩
    exact ⟨hset.ids, hset.room, hset.entries, hset.silent⟩
  | cleaned i s hs _ => exact cleaned_live h hs
  | answered n k q payload _ hk =>
    rw [← @answerTo_msgId ctx q payload] at hk
    exact deliver_live (handled_live h n) hk
  | dropped n => exact handled_live h n

theorem empty_live : Live empty := by
  refine ⟨List.nodup_nil, Nat.zero_le _, ?_, ?_⟩
  · rintro e ⟨⟩
  · rintro i s ⟨⟩

end

/-- In every run the map has at most 4096 entries, under different ids. Each leads to a stream with that
id that has no response yet, and that waits for one or is about to clean up. When no stream does, the map
is empty. -/
theorem entries_live (ctx : HandlerContext) (as : List Action) :
    Live (run (step ctx) empty as) ∧
      ((∀ s ∈ (run (step ctx) empty as).streams, ¬Holds s) →
        (run (step ctx) empty as).inboundResponseSenders = []) := by
  have hlive : Live (run (step ctx) empty as) :=
    run_inv (fun t a h _ => step_live t a h) empty_live (meets_of_forall (fun _ _ => trivial) empty as)
  refine ⟨hlive, fun hgone => List.eq_nil_iff_forall_not_mem.mpr fun e he => ?_⟩
  obtain ⟨s, hs, -, hholds⟩ := hlive.entries e he
  exact hgone s (List.mem_of_getElem? hs) hholds

/-! ## No response is lost -/

/-- No request is registered with the id of a stream that may still clean up. -/
def Spaced (t : QuicTransport) : Action → Prop
  | .register i => ∀ s ∈ t.streams[i]?, s.pc = .decoded →
    t.inboundResponseSenders.lookup s.msg.msgId = none →
    ∀ s' ∈ t.streams, s'.pc = .registered ∨ s'.pc = .givenUp → s'.msg.msgId ≠ s.msg.msgId
  | _ => True

instance (t : QuicTransport) : (a : Action) → Decidable (Spaced t a)
  | .register i => inferInstanceAs (Decidable (∀ s ∈ t.streams[i]?, _))
  | .accept _ | .forward _ | .forwardFails _ | .receive _ | .giveUp _ | .cleanUp _ | .write _
  | .writeFails _ | .respond _ _ | .ignore _ => isTrue trivial

/-- A stream that waits is in the map, and the map has no entry of another stream under its id. -/
structure Listed (t : QuicTransport) : Prop where
  live : Live t
  listed : ∀ (i : Nat), ∀ s ∈ t.streams[i]?, s.oneshot = none → s.pc = .registered ∨ s.pc = .waiting →
    (s.msg.msgId, i) ∈ t.inboundResponseSenders
  apart : ∀ (i : Nat), ∀ s ∈ t.streams[i]?, s.pc = .registered ∨ s.pc = .givenUp →
    ∀ e ∈ t.inboundResponseSenders, e.1 = s.msg.msgId → e.2 = i
  asked : ∀ q ∈ t.requests, ∃ s ∈ t.streams[q.stream]?, s.msg = q.msg

section

variable {ctx : HandlerContext} {t : QuicTransport}

theorem Live.unique (h : Live t) {e e' : UInt64 × Nat} (he : e ∈ t.inboundResponseSenders)
    (he' : e' ∈ t.inboundResponseSenders) (hid : e.1 = e'.1) : e = e' :=
  List.inj_on_of_nodup_map h.ids he he' hid

theorem Listed.accepted (h : Listed t) (msg : Message) :
    Listed { t with streams := t.streams ++ [⟨msg, none, .decoded⟩] } := by
  refine ⟨accepted_live h.live msg, fun i s hs hone hpc => ?_, fun i s hs hpc => ?_, fun q hq => ?_⟩
  · rcases getElem?_concat_some hs with hs | ⟨-, rfl⟩
    · exact h.listed i s hs hone hpc
    · rcases hpc with ⟨⟨⟩⟩ | ⟨⟨⟩⟩
  · rcases getElem?_concat_some hs with hs | ⟨-, rfl⟩
    · exact h.apart i s hs hpc
    · rcases hpc with ⟨⟨⟩⟩ | ⟨⟨⟩⟩
  · obtain ⟨s, hs, hmsg⟩ := h.asked q hq
    exact ⟨s, (List.getElem?_append_left (List.getElem?_eq_some_iff.mp hs).1).trans hs, hmsg⟩

theorem asked_setPc (h : Listed t) (i : Nat) (pc : StreamPc) {q : PendingRequest} (hq : q ∈ t.requests) :
    ∃ s ∈ (t.setPc i pc).streams[q.stream]?, s.msg = q.msg := by
  obtain ⟨s, hs, hmsg⟩ := h.asked q hq
  obtain ⟨s', hs', hsame⟩ := mem_setPc i pc hs
  exact ⟨s', hs', hsame.trans hmsg⟩

theorem Listed.turned (h : Listed t) {i : Nat} {s : InboundStream} {pc : StreamPc}
    (hs : t.streams[i]? = some s) (hpc : Turns s pc) : Listed (t.setPc i pc) := by
  refine ⟨h.live.setPc hs hpc.holds.1 hpc.holds.2, fun j s' hs' hone hlistens => ?_, fun j s' hs' hwatch => ?_,
    fun q hq => asked_setPc h i pc hq⟩
  · rcases getElem?_setPc hs' with ⟨hs', -⟩ | ⟨-, s'', -, rfl⟩
    · exact h.listed j s' hs' hone hlistens
    · rcases hlistens with rfl | rfl
      · cases hpc
      · cases hpc
  · rcases getElem?_setPc hs' with ⟨hs', -⟩ | ⟨rfl, s'', hs'', rfl⟩
    · exact h.apart j s' hs' hwatch
    · cases Option.mem_unique hs hs''
      intro e he hid
      cases hpc with
      | forwardFailed hpc => exact h.apart i s hs (Or.inl hpc) e he hid
      | timedOut hpc hone =>
        have hentry := h.listed i s hs hone (Or.inr hpc)
        rw [h.live.unique he hentry hid]
      | refused _ => exact absurd hwatch (by rintro (⟨⟨⟩⟩ | ⟨⟨⟩⟩))
      | receives _ _ _ => exact absurd hwatch (by rintro (⟨⟨⟩⟩ | ⟨⟨⟩⟩))
      | writes _ _ => exact absurd hwatch (by rintro (⟨⟨⟩⟩ | ⟨⟨⟩⟩))
      | writeFailed _ _ => exact absurd hwatch (by rintro (⟨⟨⟩⟩ | ⟨⟨⟩⟩))

theorem Listed.registered (h : Listed t) {i : Nat} {s : InboundStream} (hs : t.streams[i]? = some s)
    (hpc : s.pc = .decoded) (hroom : t.inboundResponseSenders.length < maxPendingResponses)
    (hnew : t.inboundResponseSenders.lookup s.msg.msgId = none)
    (hspaced : ∀ s' ∈ t.streams, s'.pc = .registered ∨ s'.pc = .givenUp → s'.msg.msgId ≠ s.msg.msgId) :
    Listed { t.setPc i .registered with
      inboundResponseSenders := (s.msg.msgId, i) :: t.inboundResponseSenders } := by
  refine ⟨registered_live h.live hs hpc hroom hnew, fun j s' hs' hone hlistens => ?_,
    fun j s' hs' hwatch e he hid => ?_, fun q hq => asked_setPc h i .registered hq⟩
  · rcases getElem?_setPc hs' with ⟨hs', -⟩ | ⟨rfl, s'', hs'', rfl⟩
    · exact List.mem_cons_of_mem _ (h.listed j s' hs' hone hlistens)
    · cases Option.mem_unique hs hs''
      exact List.mem_cons_self
  · rcases getElem?_setPc hs' with ⟨hs', -⟩ | ⟨rfl, s'', hs'', rfl⟩
    · rcases List.mem_cons.mp he with rfl | he
      · exact absurd hid.symm (hspaced s' (List.mem_of_getElem? hs') hwatch)
      · exact h.apart j s' hs' hwatch e he hid
    · cases Option.mem_unique hs hs''
      rcases List.mem_cons.mp he with rfl | he
      · rfl
      · have hne := List.lookup_eq_none_iff.mp hnew e he
        have hsame : s.msg.msgId = e.1 := hid.symm
        simp [hsame] at hne

theorem Listed.forwarded (h : Listed t) {i : Nat} {s : InboundStream} (hs : t.streams[i]? = some s)
    (hpc : s.pc = .registered) :
    Listed { t.setPc i .waiting with requests := t.requests ++ [⟨i, s.msg⟩] } := by
  have hlive : Live (t.setPc i .waiting) :=
    h.live.setPc hs (by rintro ⟨⟩) fun hholds => ⟨hholds.1, Or.inr (Or.inl rfl)⟩
  refine ⟨⟨hlive.ids, hlive.room, hlive.entries, hlive.silent⟩, fun j s' hs' hone hlistens => ?_,
    fun j s' hs' hwatch => ?_, fun q hq => ?_⟩
  · rcases getElem?_setPc hs' with ⟨hs', -⟩ | ⟨rfl, s'', hs'', rfl⟩
    · exact h.listed j s' hs' hone hlistens
    · cases Option.mem_unique hs hs''
      exact h.listed i s hs hone (Or.inl hpc)
  · rcases getElem?_setPc hs' with ⟨hs', -⟩ | ⟨-, s'', -, rfl⟩
    · exact h.apart j s' hs' hwatch
    · rcases hwatch with ⟨⟨⟩⟩ | ⟨⟨⟩⟩
  · rcases List.mem_append.mp hq with hq | hq
    · exact asked_setPc h i .waiting hq
    · rw [List.mem_singleton.mp hq]
      exact ⟨_, getElem?_setPc_self .waiting hs, rfl⟩

theorem Listed.cleaned (h : Listed t) {i : Nat} {s : InboundStream} (hs : t.streams[i]? = some s)
    (hpc : s.pc = .givenUp) : Listed ((t.setPc i .closed).remove s.msg.msgId) := by
  refine ⟨cleaned_live h.live hs, fun j s' hs' hone hlistens => ?_, fun j s' hs' hwatch e he => ?_,
    fun q hq => asked_setPc h i .closed hq⟩
  · rcases getElem?_setPc hs' with ⟨hs', hij⟩ | ⟨-, s'', -, rfl⟩
    · have hentry := h.listed j s' hs' hone hlistens
      refine List.mem_filter.mpr ⟨hentry, decide_eq_true fun hid => ?_⟩
      exact hij (h.apart i s hs (Or.inr hpc) _ hentry hid).symm
    · rcases hlistens with ⟨⟨⟩⟩ | ⟨⟨⟩⟩
  · rcases getElem?_setPc hs' with ⟨hs', -⟩ | ⟨-, s'', -, rfl⟩
    · exact h.apart j s' hs' hwatch e (List.mem_of_mem_filter he)
    · rcases hwatch with ⟨⟨⟩⟩ | ⟨⟨⟩⟩

theorem Listed.handled (h : Listed t) (n : Nat) : Listed (handled t n) :=
  ⟨handled_live h.live n, h.listed, h.apart, fun q hq => h.asked q (List.mem_of_mem_eraseIdx hq)⟩

/-- A stream after the delivery, and what it was before. -/
theorem getElem?_deliver {k j : Nat} {resp : Response} {s : InboundStream}
    (h : (deliver t k resp).streams[j]? = some s) :
    ∃ s', t.streams[j]? = some s' ∧ (k ≠ j ∧ s = s' ∨ k = j ∧ s = hears resp s') := by
  by_cases hj : k = j
  · subst hj
    rw [deliver, List.getElem?_modify_eq] at h
    obtain ⟨s', hs', rfl⟩ := Option.map_eq_some_iff.mp h
    exact ⟨s', hs', Or.inr ⟨rfl, rfl⟩⟩
  · exact ⟨s, (getElem?_deliver_ne resp hj).symm.trans h, Or.inl ⟨hj, rfl⟩⟩

theorem Listed.deliver (h : Listed t) {k : Nat} {resp : Response}
    (hk : t.inboundResponseSenders.lookup resp.msg.msgId = some k) : Listed (deliver t k resp) := by
  refine ⟨deliver_live h.live hk, fun j s hs hone hlistens => ?_, fun j s hs hwatch e he => ?_, fun q hq => ?_⟩
  · obtain ⟨s', hs', ⟨hj, rfl⟩ | ⟨rfl, rfl⟩⟩ := getElem?_deliver hs
    · have hentry := h.listed j s hs' hone hlistens
      refine List.mem_filter.mpr ⟨hentry, decide_eq_true fun hid => ?_⟩
      exact hj (congrArg Prod.snd (h.live.unique (mem_of_lookup hk) hentry hid.symm))
    · -- a stream that listens has the response now
      rw [hears_pc] at hlistens
      have hl : listens s' = true := decide_eq_true hlistens
      rw [hears, if_pos hl] at hone
      cases hone
  · obtain ⟨s', hs', ⟨-, rfl⟩ | ⟨rfl, rfl⟩⟩ := getElem?_deliver hs
    · exact h.apart j s hs' hwatch e (List.mem_of_mem_filter he)
    · rw [hears_pc] at hwatch
      rw [hears_msg]
      exact h.apart k s' hs' hwatch e (List.mem_of_mem_filter he)
  · obtain ⟨s, hs, hmsg⟩ := h.asked q hq
    by_cases hj : k = q.stream
    · exact ⟨_, hj ▸ getElem?_deliver_self resp (hj ▸ hs), (hears_msg resp s).trans hmsg⟩
    · exact ⟨s, (getElem?_deliver_ne resp hj).trans hs, hmsg⟩

theorem Live.lookup (h : Live t) {msgId : UInt64} {k : Nat} (hk : (msgId, k) ∈ t.inboundResponseSenders) :
    t.inboundResponseSenders.lookup msgId = some k := by
  cases hlookup : t.inboundResponseSenders.lookup msgId with
  | none =>
    have hne := List.lookup_eq_none_iff.mp hlookup _ hk
    simp at hne
  | some k' => exact congrArg (fun e : UInt64 × Nat => some e.2) (h.unique (mem_of_lookup hlookup) hk rfl)

theorem respond_deliver {n k : Nat} {q : PendingRequest} {payload : Payload} (hq : t.requests[n]? = some q)
    (hk : t.inboundResponseSenders.lookup (answerTo ctx q payload).msg.msgId = some k) :
    step ctx t (.respond n payload) = deliver (handled t n) k (answerTo ctx q payload) := by
  simp only [step, hq, sendResponse, hk]
  rfl

theorem empty_listed : Listed empty := by
  refine ⟨empty_live, ?_, ?_, ?_⟩
  · rintro i s ⟨⟩
  · rintro i s ⟨⟩
  · rintro q ⟨⟩

theorem step_listed (t : QuicTransport) (a : Action) (h : Listed t) (hok : Spaced t a) :
    Listed (step ctx t a) := by
  have hend := step_end ctx t a
  generalize step ctx t a = t' at hend ⊢
  cases hend with
  | unchanged => exact h
  | accepted msg => exact h.accepted msg
  | turned i s pc hs hpc => exact h.turned hs hpc
  | registered i s hs hpc hroom hnew ha =>
    subst ha
    exact h.registered hs hpc hroom hnew (hok s hs hpc hnew)
  | forwarded i s hs hpc => exact h.forwarded hs hpc
  | cleaned i s hs hpc => exact h.cleaned hs hpc
  | answered n k q payload _ hk =>
    rw [← @answerTo_msgId ctx q payload] at hk
    exact (h.handled n).deliver hk
  | dropped n => exact h.handled n

/-- The response is in the channel, and the stream has not ended with anything else. -/
def Answered (resp : Response) (s : InboundStream) : Prop :=
  s.oneshot = some resp ∧
    (s.pc = .waiting ∨ s.pc = .received resp ∨ s.pc = .wrote resp ∨ s.pc = .closed)

theorem step_answered {resp : Response} {i : Nat} (t : QuicTransport) (a : Action)
    (h : Live t ∧ ∃ s ∈ t.streams[i]?, Answered resp s) :
    Live (step ctx t a) ∧ ∃ s ∈ (step ctx t a).streams[i]?, Answered resp s := by
  obtain ⟨hlive, s, hs, hanswered⟩ := h
  refine ⟨step_live t a hlive, ?_⟩
  have hend := step_end ctx t a
  generalize step ctx t a = t' at hend ⊢
  obtain ⟨hone, hpc⟩ := hanswered
  -- a step of another stream leaves this one alone
  have hother {j : Nat} {s' : InboundStream} (pc : StreamPc) (hs' : t.streams[j]? = some s')
      (hne : s' ≠ s) : (t.setPc j pc).streams[i]? = some s := by
    rw [getElem?_setPc_ne]
    · exact hs
    · rintro rfl
      exact hne (Option.mem_unique hs' hs)
  cases hend with
  | unchanged => exact ⟨s, hs, hone, hpc⟩
  | accepted msg =>
    exact ⟨s, (List.getElem?_append_left (List.getElem?_eq_some_iff.mp hs).1).trans hs, hone, hpc⟩
  | turned j s' pc hs' hturns =>
    by_cases hij : j = i
    · subst hij
      cases Option.mem_unique hs hs'
      refine ⟨_, getElem?_setPc_self pc hs, hone, ?_⟩
      cases hturns with
      | refused h => simp [h] at hpc
      | forwardFailed h => simp [h] at hpc
      | receives r h hone' =>
        rw [hone] at hone'
        cases hone'
        exact Or.inr (Or.inl rfl)
      | timedOut h hone' =>
        rw [hone] at hone'
        cases hone'
      | writes r h =>
        rw [h] at hpc
        rcases hpc with ⟨⟨⟩⟩ | hr | ⟨⟨⟩⟩ | ⟨⟨⟩⟩
        cases hr
        exact Or.inr (Or.inr (Or.inl rfl))
      | writeFailed r h => exact Or.inr (Or.inr (Or.inr rfl))
    · exact ⟨s, (getElem?_setPc_ne pc hij).trans hs, hone, hpc⟩
  | registered j s' hs' hpc' _ _ _ =>
    exact ⟨s, hother _ hs' (by rintro rfl; simp [hpc'] at hpc), hone, hpc⟩
  | forwarded j s' hs' hpc' => exact ⟨s, hother _ hs' (by rintro rfl; simp [hpc'] at hpc), hone, hpc⟩
  | cleaned j s' hs' hpc' => exact ⟨s, hother _ hs' (by rintro rfl; simp [hpc'] at hpc), hone, hpc⟩
  | answered n k q payload _ hk =>
    -- an entry of the map leads to a stream without a response
    obtain ⟨s', hs', -, hnone, -⟩ := hlive.entries _ (mem_of_lookup hk)
    refine ⟨s, ?_, hone, hpc⟩
    rw [getElem?_deliver_ne]
    · exact hs
    · rintro rfl
      cases Option.mem_unique hs hs'
      rw [hone] at hnone
      cases hnone
  | dropped n => exact ⟨s, hs, hone, hpc⟩

end

open Admission

/-- The ping gave up and cleaned up before the other request with its id came. -/
def cleanedUp : List Action :=
  [.accept pingSeven, .register 0, .forward 0, .giveUp 0, .cleanUp 0, .ignore 0, .accept findSeven, .register 1,
    .forward 1]

/-- The ping is still to clean up when the other request with its id comes, and takes its entry out. -/
def cleansUpLate : List Action :=
  [.accept pingSeven, .register 0, .forward 0, .giveUp 0, .respond 0 (.pingResponse none), .accept findSeven,
    .register 1, .forward 1, .cleanUp 0]

/-- Then the response has no stream to go to. -/
example :
    (run (step (contextWith putCrates)) empty
      (cleansUpLate ++ [.respond 0 (.findNodeResponse []), .receive 1])).streams[1]? =
        some ⟨findSeven, none, .waiting⟩ := by decide +kernel

end TesserasDht.PendingResponses
