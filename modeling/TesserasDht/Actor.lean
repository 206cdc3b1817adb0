import TesserasDht.Code.Actor
import TesserasDht.Lib.Lists
import TesserasDht.Lib.Runs

/-!
# No call is lost

The commands leave the channel in the order in which they went in. The loop executes them one after
another, except the bootstraps, and the reply channel of a command is always with whoever has the
command.
-/

open Lib.Runs Lib.Lists Lib.Channels

namespace TesserasDht.Actors

open Actor

/-! ## Where the commands are -/

namespace Queued

def isBootstrap (q : QueuedCommand) : Bool := match q.command with
  | .bootstrap _ => true
  | _ => false

def isShutdown (q : QueuedCommand) : Bool := match q.command with
  | .shutdown => true
  | _ => false

/-- The loop executes the command itself. -/
def isSerial (q : QueuedCommand) : Bool := !isBootstrap q && !isShutdown q

end Queued

open Queued

/-- How often the reply channel of the call occurs. -/
def uses (i : Nat) (l : List QueuedCommand) : Nat := l.countP fun q => q.call = i

/-- The commands whose reply channel someone has. -/
def inHand (s : Actor) : List QueuedCommand := s.loop.executes ++ s.background ++ s.channel.items

structure Ordered (s : Actor) : Prop where
  handlers : s.handlers.length ≤ s.maxConcurrentHandlers
  distinct : ∀ i, uses i s.entered ≤ 1
  ledger : ∀ i, uses i s.answered + uses i s.panicked + uses i (inHand s) ≤ uses i s.entered
  fifo : s.received ++ s.channel.items <+: s.entered
  whole : s.loop.isStopped = false → s.received ++ s.channel.items = s.entered
  serial : s.answered.filter isSerial ++ s.loop.executes <+: s.received.filter isSerial
  serial_whole : s.loop.isStopped = false →
    s.answered.filter isSerial ++ s.loop.executes = s.received.filter isSerial
  background : ∀ q ∈ s.background, isBootstrap q = true
  shutdown : ∀ q ∈ s.received, isShutdown q = true →
    (s.loop = .stopping ∨ s.loop = .stopped) ∧ s.received.getLast? = some q
  closed : s.loop.isStopped = true → s.channel.items = []

/-- What the state of a call says about its reply channel. -/
structure CallGood (s : Actor) (i : Nat) (c : Call) : Prop where
  waiting : c.pc = .waiting → c.command ≠ .shutdown
  sending : c.isSending = true → c.reply = .pending ∧ uses i s.entered = 0
  pending : c.reply = .pending → c.isSending = true ∨ c.command = .shutdown ∨ 0 < uses i (inHand s)
  held : 0 < uses i (inHand s) → c.reply = .pending
  sent : ∀ r, c.reply = .sent r → 0 < uses i s.answered
  dropped : c.reply = .dropped → c.pc = .abandoned ∨ s.loop = .stopped ∨ 0 < uses i s.panicked
  returned : ∀ r, c.pc = .returned r → c.command = .shutdown ∨ c.reply = .sent r ∨
    c.reply = .dropped ∧ r = .error nodeStopped

structure Accounted (s : Actor) : Prop extends Ordered s where
  calls : ∀ (i : Nat), ∀ c ∈ s.calls[i]?, CallGood s i c
  commands : ∀ q ∈ s.entered, ∃ c ∈ s.calls[q.call]?, c.command = q.command

/-! ## Counting -/

section

variable {i : Nat} {l l' : List QueuedCommand} {q : QueuedCommand}

@[simp] theorem uses_nil : uses i [] = 0 := rfl

@[simp] theorem uses_append : uses i (l ++ l') = uses i l + uses i l' := List.countP_append

@[simp] theorem uses_cons : uses i (q :: l) = uses i l + if q.call = i then 1 else 0 := by
  simp [uses, List.countP_cons]

theorem uses_pos : 0 < uses i l ↔ ∃ q ∈ l, q.call = i := by
  simp [uses, List.countP_pos_iff]

theorem uses_eraseIdx {n : Nat} (h : l[n]? = some q) (i : Nat) :
    uses i l = uses i (l.eraseIdx n) + if q.call = i then 1 else 0 := by
  obtain ⟨hlt, rfl⟩ := List.getElem?_eq_some_iff.mp h
  rw [← uses_cons]
  exact ((List.getElem_cons_eraseIdx_perm hlt).countP_eq _).symm

end

/-! ## Calls -/

section

variable {s s' : Actor} {i j : Nat} {c : Call}

theorem getElem?_modifyCall {f : Call → Call} (h : c ∈ (s.modifyCall j f).calls[i]?) :
    i ≠ j ∧ c ∈ s.calls[i]? ∨ i = j ∧ ∃ c' ∈ s.calls[i]?, c = f c' := by
  simp only [modifyCall, List.getElem?_modify, Option.mem_def, Option.map_eq_map,
    Option.map_eq_some_iff] at h
  obtain ⟨c', hc', rfl⟩ := h
  by_cases hij : j = i
  · exact Or.inr ⟨hij.symm, c', hc', by rw [if_pos hij]⟩
  · exact Or.inl ⟨Ne.symm hij, by rw [if_neg hij]; exact hc'⟩

/-- What the state of a call depends on. -/
theorem CallGood.frame (h : CallGood s i c) (hentered : uses i s'.entered = uses i s.entered)
    (hheld : uses i (inHand s') = uses i (inHand s)) (hanswered : uses i s.answered ≤ uses i s'.answered)
    (hpanicked : uses i s.panicked ≤ uses i s'.panicked) (hloop : s.loop = .stopped → s'.loop = .stopped) :
    CallGood s' i c where
  waiting := h.waiting
  sending hc := by
    rw [hentered]
    exact h.sending hc
  pending hc := by
    rw [hheld]
    exact h.pending hc
  held hc := by
    rw [hheld] at hc
    exact h.held hc
  sent r hr := (h.sent r hr).trans_le hanswered
  dropped hc := by
    rcases h.dropped hc with hpc | hstopped | hfail
    · exact Or.inl hpc
    · exact Or.inr (Or.inl (hloop hstopped))
    · exact Or.inr (Or.inr (hfail.trans_le hpanicked))
  returned := h.returned

theorem commands_modify {f : Call → Call} (hf : ∀ c, (f c).command = c.command) {l : List QueuedCommand}
    (h : ∀ q ∈ l, ∃ c ∈ s.calls[q.call]?, c.command = q.command) :
    ∀ q ∈ l, ∃ c ∈ (s.modifyCall j f).calls[q.call]?, c.command = q.command := by
  intro q hq
  obtain ⟨c, hc, hcommand⟩ := h q hq
  simp only [modifyCall, List.getElem?_modify, Option.mem_def.mp hc, Option.map_eq_map, Option.map_some]
  refine ⟨_, rfl, ?_⟩
  split
  · rw [hf, hcommand]
  · exact hcommand

/-- A step of a caller. -/
theorem Accounted.modify (h : Accounted s) {f : Call → Call} (hcommand : ∀ c, (f c).command = c.command)
    (hf : ∀ c ∈ s.calls[i]?, CallGood s i c → CallGood s i (f c)) : Accounted (s.modifyCall i f) where
  toOrdered := ⟨h.handlers, h.distinct, h.ledger, h.fifo, h.whole, h.serial, h.serial_whole, h.background,
    h.shutdown, h.closed⟩
  calls := by
    intro j c hc
    rcases getElem?_modifyCall hc with ⟨-, hc⟩ | ⟨rfl, c', hc', rfl⟩
    · exact (h.calls j c hc).frame rfl rfl le_rfl le_rfl id
    · exact (hf c' hc' (h.calls j c' hc')).frame rfl rfl le_rfl le_rfl id
  commands := commands_modify hcommand h.commands

/-! ## Callers -/

theorem Accounted.call (h : Accounted s) (command : Command) :
    Accounted { s with calls := s.calls ++ [.new command] } where
  toOrdered := ⟨h.handlers, h.distinct, h.ledger, h.fifo, h.whole, h.serial, h.serial_whole, h.background,
    h.shutdown, h.closed⟩
  calls := by
    intro i c hc
    have hunused : uses s.calls.length s.entered = 0 := by
      by_contra hne
      obtain ⟨q, hq, hcall⟩ := uses_pos.mp (Nat.pos_of_ne_zero hne)
      obtain ⟨c', hc', -⟩ := h.commands q hq
      rw [hcall, Option.mem_def, List.getElem?_eq_none le_rfl] at hc'
      cases hc'
    rcases getElem?_concat_some hc with hc | ⟨rfl, rfl⟩
    · exact (h.calls i c hc).frame rfl rfl le_rfl le_rfl id
    · have hledger := h.ledger s.calls.length
      refine ⟨by rintro ⟨⟩, fun _ => ⟨rfl, hunused⟩, fun _ => Or.inl rfl, fun hheld => ?_, ?_, ?_, ?_⟩
      · change 0 < uses s.calls.length (inHand s) at hheld
        omega
      · rintro _ ⟨⟩
      · rintro ⟨⟩
      · rintro _ ⟨⟩
  commands := by
    intro q hq
    obtain ⟨c, hc, hcommand⟩ := h.commands q hq
    have hlt := (List.getElem?_eq_some_iff.mp hc).1
    exact ⟨c, by rwa [List.getElem?_append_left hlt], hcommand⟩

theorem Accounted.unsent (h : Accounted s) (hc : CallGood s i c) (hsending : c.isSending = true) :
    c.reply = .pending ∧ uses i s.entered = 0 ∧ uses i (inHand s) = 0 := by
  obtain ⟨hreply, hentered⟩ := hc.sending hsending
  have hledger := h.ledger i
  exact ⟨hreply, hentered, by omega⟩

theorem refuse_call (c : Call) : c.refuse.reply = .dropped ∧ (∃ r, c.refuse.pc = .returned r) ∧
    ∀ r, c.refuse.pc = .returned r → c.refuse.command = .shutdown ∨ r = .error nodeStopped := by
  obtain ⟨command, pc, reply⟩ := c
  cases command with
  | shutdown => exact ⟨rfl, ⟨_, rfl⟩, fun _ _ => Or.inl rfl⟩
  | _ => exact ⟨rfl, ⟨_, rfl⟩, by rintro _ ⟨⟩; exact Or.inr rfl⟩

theorem Accounted.refuse (h : Accounted s) (hc : c ∈ s.calls[i]?) (hsending : c.isSending = true)
    (hstopped : s.loop = .stopped) : Accounted (s.modifyCall i Call.refuse) := by
  refine h.modify (fun c => ?_) fun c' hc' hgood => ?_
  · obtain ⟨command, pc, reply⟩ := c
    cases command <;> rfl
  · cases hc.symm.trans hc'
    obtain ⟨-, -, hfree⟩ := h.unsent hgood hsending
    obtain ⟨hreply, hpc, hreturned⟩ := refuse_call c
    refine ⟨fun hwaiting => ?_, fun hs => ?_, ?_, by omega, ?_, fun _ => Or.inr (Or.inl hstopped), fun r hr => ?_⟩
    · obtain ⟨r, hr⟩ := hpc
      cases hr.symm.trans hwaiting
    · obtain ⟨r, hr⟩ := hpc
      rw [Call.isSending, hr] at hs
      cases hs
    · rw [hreply]
      rintro ⟨⟩
    · rw [hreply]
      rintro _ ⟨⟩
    · exact (hreturned r hr).imp id fun h => Or.inr ⟨hreply, h⟩

theorem Accounted.abandon (h : Accounted s) (i : Nat) : Accounted (s.modifyCall i Call.abandon) := by
  refine h.modify (fun c => ?_) fun c hc hgood => ?_
  · unfold Call.abandon
    split <;> rfl
  · unfold Call.abandon
    split
    next hpc =>
      have hsending : c.isSending = true := by
        unfold Call.isSending
        rw [hpc]
      obtain ⟨-, -, hfree⟩ := h.unsent hgood hsending
      exact ⟨by rintro ⟨⟩, by rintro ⟨⟩, by rintro ⟨⟩, by omega, by rintro _ ⟨⟩, fun _ => Or.inl rfl,
        by rintro _ ⟨⟩⟩
    next hpc =>
      have hsending : c.isSending = false := by
        unfold Call.isSending
        rw [hpc]
      refine ⟨by rintro ⟨⟩, by rintro ⟨⟩, fun hreply => ?_, hgood.held, hgood.sent, fun _ => Or.inl rfl,
        by rintro _ ⟨⟩⟩
      have hplace := hgood.pending hreply
      rw [hsending] at hplace
      exact Or.inr (hplace.resolve_left Bool.false_ne_true)
    next => exact hgood

theorem Accounted.read (h : Accounted s) (i : Nat) : Accounted (s.modifyCall i Call.read) := by
  refine h.modify (fun c => ?_) fun c hc hgood => ?_
  · unfold Call.read
    split <;> rfl
  · unfold Call.read
    split
    next r hpc hreply =>
      have hnone : ¬ 0 < uses i (inHand s) := by
        intro hheld
        cases hreply.symm.trans (hgood.held hheld)
      refine ⟨by rintro ⟨⟩, by rintro ⟨⟩, fun h => ?_, fun h => absurd h hnone, hgood.sent, fun h => ?_, ?_⟩
      · cases hreply.symm.trans h
      · cases hreply.symm.trans h
      · rintro _ ⟨⟩
        exact Or.inr (Or.inl hreply)
    next hpc hreply =>
      have hnone : ¬ 0 < uses i (inHand s) := by
        intro hheld
        cases hreply.symm.trans (hgood.held hheld)
      refine ⟨by rintro ⟨⟩, by rintro ⟨⟩, fun h => ?_, fun h => absurd h hnone, hgood.sent, fun h => ?_, ?_⟩
      · cases hreply.symm.trans h
      · rcases hgood.dropped h with habandoned | hrest
        · cases hpc.symm.trans habandoned
        · exact Or.inr hrest
      · rintro _ ⟨⟩
        exact Or.inr (Or.inr ⟨hreply, rfl⟩)
    next => exact hgood

theorem enter_call (h : c.reply = .pending) : c.enter.reply = .pending ∧ c.enter.isSending = false ∧
    (c.enter.command = .shutdown ∧ (∃ r, c.enter.pc = .returned r) ∨
      c.enter.command ≠ .shutdown ∧ c.enter.pc = .waiting) := by
  obtain ⟨command, pc, reply⟩ := c
  obtain rfl : reply = .pending := h
  cases command with
  | shutdown => exact ⟨rfl, rfl, Or.inl ⟨rfl, _, rfl⟩⟩
  | _ => exact ⟨rfl, rfl, Or.inr ⟨by rintro ⟨⟩, rfl⟩⟩

/-- A command goes into the channel. -/
theorem Accounted.enter (h : Accounted s) (hc : c ∈ s.calls[i]?) (hsending : c.isSending = true)
    (hlive : s.loop.isStopped = false) : Accounted (s.enter i c) := by
  unfold Actor.enter
  split
  next channel hsend =>
    obtain ⟨hitems, -⟩ := Channel.send_eq hsend
    obtain ⟨hreply, hentered, hfree⟩ := h.unsent (h.calls i c hc) hsending
    refine ⟨⟨h.handlers, fun j => ?_, fun j => ?_, ?_, fun _ => ?_, h.serial, h.serial_whole, h.background,
      h.shutdown, fun hs => by cases hlive.symm.trans hs⟩, fun j c' hc' => ?_, fun q hq => ?_⟩
    · have hdistinct := h.distinct j
      simp only [uses_append, uses_cons, uses_nil]
      split
      next hij =>
        subst hij
        omega
      next => omega
    · have hledger := h.ledger j
      simp only [inHand, modifyCall, hitems, uses_append, uses_cons, uses_nil] at hledger ⊢
      omega
    · dsimp only [modifyCall]
      rw [hitems, ← List.append_assoc, h.whole hlive]
    · dsimp only [modifyCall]
      rw [hitems, ← List.append_assoc, h.whole hlive]
    · rcases getElem?_modifyCall (s := s) hc' with ⟨hij, hc'⟩ | ⟨rfl, c'', hc'', rfl⟩
      · refine (h.calls j c' hc').frame ?_ ?_ le_rfl le_rfl id
        · simp [Ne.symm hij]
        · simp [inHand, modifyCall, hitems, Ne.symm hij]
      · cases hc.symm.trans hc''
        obtain ⟨hreply', hpc, hreturned⟩ := enter_call hreply
        refine ⟨fun hwaiting => ?_, ?_, fun _ => Or.inr (Or.inr ?_), fun _ => hreply', ?_, ?_, fun r hr => ?_⟩
        · rcases hreturned with ⟨-, r, hr⟩ | ⟨hcommand, -⟩
          · cases hr.symm.trans hwaiting
          · exact hcommand
        · rw [hpc]
          rintro ⟨⟩
        · simp [inHand, modifyCall, hitems]
        · rw [hreply']
          rintro _ ⟨⟩
        · rw [hreply']
          rintro ⟨⟩
        · rcases hreturned with ⟨hcommand, -⟩ | ⟨-, hwaiting⟩
          · exact Or.inl hcommand
          · cases hwaiting.symm.trans hr
    · have hcommand (c : Call) : c.enter.command = c.command := by
        obtain ⟨command, pc, reply⟩ := c
        cases command <;> rfl
      refine commands_modify hcommand ?_ q hq
      intro q hq
      rcases List.mem_append.mp hq with hq | hq
      · exact h.commands q hq
      · obtain rfl := List.mem_singleton.mp hq
        exact ⟨c, hc, rfl⟩
  next => exact h

/-! ## The loop -/

/-- The loop goes from one place to another. -/
theorem Accounted.loop (h : Accounted s) {loop : Loop} (hfrom : s.loop ≠ .stopping ∧ s.loop ≠ .stopped)
    (hto : loop.isStopped = false)
    (hexecutes : s.loop.executes = loop.executes) : Accounted { s with loop } where
  toOrdered := by
    have hstopped : s.loop.isStopped = false := by
      cases hloop : s.loop with
      | stopped => exact absurd hloop hfrom.2
      | _ => rfl
    refine ⟨h.handlers, h.distinct, fun i => ?_, h.fifo, fun _ => h.whole hstopped, ?_, fun _ => ?_, h.background,
      fun q hq hshutdown => ?_, fun hs => by cases hto.symm.trans hs⟩
    · have hledger := h.ledger i
      simp only [inHand, hexecutes] at hledger ⊢
      exact hledger
    · rw [← hexecutes]
      exact h.serial
    · rw [← hexecutes]
      exact h.serial_whole hstopped
    · rcases (h.shutdown q hq hshutdown).1 with hloop | hloop
      · exact absurd hloop hfrom.1
      · exact absurd hloop hfrom.2
  calls i c hc := by
    refine (h.calls i c hc).frame rfl ?_ le_rfl le_rfl fun hloop => absurd hloop hfrom.2
    simp only [inHand, hexecutes]
  commands := h.commands

theorem isSending_reply (c : Call) (reply : Oneshot c.command.Reply) :
    ({ c with reply } : Call).isSending = c.isSending := by
  obtain ⟨command, pc, _⟩ := c
  cases pc <;> rfl

/-- The call gets what its reply channel has from now on. -/
theorem CallGood.replied (h : CallGood s i c) (hused : 0 < uses i s.entered) (hheld : 0 < uses i (inHand s))
    (hfree : uses i (inHand s') = 0) {reply : Oneshot c.command.Reply}
    (hreply : (∃ r, reply = .sent r) ∧ 0 < uses i s'.answered ∨
      reply = .dropped ∧ (s'.loop = .stopped ∨ 0 < uses i s'.panicked)) :
    CallGood s' i { c with reply } := by
  have hpending := h.held hheld
  refine ⟨h.waiting, fun hsending => ?_, fun hp => ?_, by omega, fun r hr => ?_, fun hd => ?_, fun r hr => ?_⟩
  · rw [isSending_reply] at hsending
    have hunused := (h.sending hsending).2
    omega
  · rcases hreply with ⟨⟨r', hr'⟩, -⟩ | ⟨hr', -⟩
    · cases hr'.symm.trans hp
    · cases hr'.symm.trans hp
  · rcases hreply with ⟨-, hanswered⟩ | ⟨hr', -⟩
    · exact hanswered
    · cases hr'.symm.trans hr
  · rcases hreply with ⟨⟨r', hr'⟩, -⟩ | ⟨-, hwhy⟩
    · cases hr'.symm.trans hd
    · exact Or.inr hwhy
  · rcases h.returned r hr with hshutdown | hsent | ⟨hdropped, -⟩
    · exact Or.inl hshutdown
    · cases hpending.symm.trans hsent
    · cases hpending.symm.trans hdropped

theorem Accounted.used (h : Accounted s) (hheld : 0 < uses i (inHand s)) :
    0 < uses i s.entered ∧ uses i s.answered = 0 ∧ uses i s.panicked = 0 ∧ uses i (inHand s) = 1 := by
  have hledger := h.ledger i
  have hdistinct := h.distinct i
  omega

/-- Someone who has a command replies, or panics. -/
theorem Accounted.reply (h : Accounted s) {q : QueuedCommand} {f : Call → Call} (hord : Ordered s')
    (hcalls : s'.calls = (s.modifyCall q.call f).calls) (hentered : s'.entered = s.entered)
    (hheld : ∀ i, uses i (inHand s) = uses i (inHand s') + if q.call = i then 1 else 0)
    (hanswered : ∀ i, uses i s.answered ≤ uses i s'.answered)
    (hpanicked : ∀ i, uses i s.panicked ≤ uses i s'.panicked) (hloop : s.loop = .stopped → s'.loop = .stopped)
    (hf : ∀ c, ∃ reply, f c = { c with reply } ∧ ((∃ r, reply = .sent r) ∧ 0 < uses q.call s'.answered ∨
      reply = .dropped ∧ 0 < uses q.call s'.panicked)) : Accounted s' where
  toOrdered := hord
  calls := by
    intro i c hc
    rw [hcalls] at hc
    rcases getElem?_modifyCall hc with ⟨hi, hc⟩ | ⟨rfl, c', hc', rfl⟩
    · refine (h.calls i c hc).frame (by rw [hentered]) ?_ (hanswered i) (hpanicked i) hloop
      rw [hheld i, if_neg (Ne.symm hi), Nat.add_zero]
    · have hone := hheld q.call
      rw [if_pos rfl] at hone
      obtain ⟨hused, -, -, hhand⟩ := h.used (i := q.call) (by omega)
      obtain ⟨reply, hreply, hwhy⟩ := hf c'
      rw [hreply]
      exact (h.calls _ c' hc').replied hused (by omega) (by omega)
        (hwhy.imp id fun hdropped => ⟨hdropped.1, Or.inr hdropped.2⟩)
  commands := by
    rw [hentered]
    have hcommand (c : Call) : (f c).command = c.command := by
      obtain ⟨reply, hreply, -⟩ := hf c
      rw [hreply]
    intro q hq
    rw [hcalls]
    exact commands_modify hcommand h.commands q hq

/-- The loop ends a command. -/
theorem Accounted.finish (h : Accounted s) {q : QueuedCommand} (hloop : s.loop = .executing q) (a : Answer) :
    Accounted { s.send q a with loop := .select } := by
  have hstopped : s.loop.isStopped = false := by
    rw [hloop]
    rfl
  have hwhole := h.serial_whole hstopped
  rw [hloop] at hwhole
  have hserial : isSerial q = true := by
    have hmem : q ∈ s.received.filter isSerial := by
      rw [← hwhole]
      exact List.mem_append_right _ (List.mem_singleton_self q)
    exact (List.mem_filter.mp hmem).2
  have hfilter : (s.answered ++ [q]).filter isSerial = s.received.filter isSerial := by
    rw [List.filter_append, ← hwhole, List.filter_cons_of_pos hserial]
    rfl
  have hheld (i : Nat) : uses i (inHand s) = uses i (inHand { s.send q a with loop := .select }) +
      if q.call = i then 1 else 0 := by
    simp only [inHand, hloop, Loop.executes, send, modifyCall, uses_append, uses_cons, uses_nil]
    omega
  refine h.reply (q := q) (f := Call.answer a) ⟨h.handlers, h.distinct, fun i => ?_, h.fifo,
    fun _ => h.whole hstopped, ?_, fun _ => ?_, h.background, fun q' hq' hshutdown => ?_, by rintro ⟨⟩⟩ rfl rfl hheld
    (fun i => ?_) (fun i => le_rfl) (fun hs => ?_) fun c => ⟨_, rfl, Or.inl ⟨⟨_, rfl⟩, ?_⟩⟩
  · have hledger := h.ledger i
    have hone := hheld i
    simp only [send, modifyCall, uses_append, uses_cons, uses_nil]
    dsimp only [send, modifyCall] at hone
    omega
  · simp only [send, modifyCall, Loop.executes, List.append_nil, hfilter]
    exact List.prefix_rfl
  · simp only [send, modifyCall, Loop.executes, List.append_nil, hfilter]
  · rcases (h.shutdown q' hq' hshutdown).1 with hs | hs
    · cases hloop.symm.trans hs
    · cases hloop.symm.trans hs
  · simp only [send, modifyCall, uses_append]
    omega
  · cases hloop.symm.trans hs
  · simp [send, modifyCall]

section

variable {q : QueuedCommand} {n : Nat}

theorem not_serial_of_bootstrap (hq : isBootstrap q = true) : isSerial q = false := by
  rw [isSerial, hq]
  rfl

theorem inHand_eraseIdx (hn : s.background[n]? = some q) (i : Nat) :
    uses i (inHand s) = uses i (inHand { s with background := s.background.eraseIdx n }) +
      if q.call = i then 1 else 0 := by
  have herase := uses_eraseIdx hn i
  simp only [inHand, uses_append]
  omega

/-- A bootstrap in the background ends. -/
theorem Accounted.finishBackground (h : Accounted s) (hn : s.background[n]? = some q) (a : Answer) :
    Accounted { s.send q a with background := s.background.eraseIdx n } := by
  have hmem : q ∈ s.background := List.mem_of_getElem? hn
  have hfilter : (s.answered ++ [q]).filter isSerial = s.answered.filter isSerial := by
    rw [List.filter_append, List.filter_cons_of_neg
      (by rw [not_serial_of_bootstrap (h.background q hmem)]; exact Bool.false_ne_true)]
    exact List.append_nil _
  have hheld := inHand_eraseIdx hn
  refine h.reply (q := q) (f := Call.answer a) ⟨h.handlers, h.distinct, fun i => ?_, h.fifo, h.whole, ?_, ?_,
    fun q' hq' => h.background q' (List.mem_of_mem_eraseIdx hq'), h.shutdown, h.closed⟩ rfl rfl hheld
    (fun i => ?_) (fun i => le_rfl) id fun c => ⟨_, rfl, Or.inl ⟨⟨_, rfl⟩, ?_⟩⟩
  · have hledger := h.ledger i
    have hone := hheld i
    simp only [send, modifyCall, uses_append, uses_cons, uses_nil]
    simp only [inHand, uses_append] at hone hledger ⊢
    omega
  · simp only [send, modifyCall, hfilter]
    exact h.serial
  · simp only [send, modifyCall, hfilter]
    exact h.serial_whole
  · simp only [send, modifyCall, uses_append]
    omega
  · simp [send, modifyCall]

theorem Accounted.panicBackground (h : Accounted s) (hn : s.background[n]? = some q) :
    Accounted { s.modifyCall q.call Call.drop with
      background := s.background.eraseIdx n, panicked := s.panicked ++ [q] } := by
  have hheld := inHand_eraseIdx hn
  refine h.reply (q := q) (f := Call.drop) ⟨h.handlers, h.distinct, fun i => ?_, h.fifo, h.whole, h.serial,
    h.serial_whole, fun q' hq' => h.background q' (List.mem_of_mem_eraseIdx hq'), h.shutdown, h.closed⟩ rfl rfl hheld
    (fun i => le_rfl) (fun i => ?_) id fun c => ⟨_, rfl, Or.inr ⟨rfl, ?_⟩⟩
  · have hledger := h.ledger i
    have hone := hheld i
    simp only [modifyCall, uses_append, uses_cons, uses_nil]
    simp only [inHand, uses_append] at hone hledger ⊢
    omega
  · simp only [uses_append]
    omega
  · simp

end

/-- The actor is dropped, and the callers that wait for the loop learn it. -/
theorem Accounted.dropAll (h : Accounted s) : Accounted s.dropAll where
  toOrdered := by
    refine ⟨h.handlers, h.distinct, fun i => ?_, ?_, by rintro ⟨⟩, ?_, by rintro ⟨⟩, h.background,
      fun q hq hshutdown => ⟨Or.inr rfl, (h.shutdown q hq hshutdown).2⟩, fun _ => rfl⟩
    · have hledger := h.ledger i
      simp only [inHand, Actor.dropAll, Channel.items_close, Loop.executes, uses_append, uses_nil] at hledger ⊢
      omega
    · exact (List.prefix_append_right_inj _).mpr List.nil_prefix |>.trans h.fifo
    · exact (List.prefix_append_right_inj _).mpr List.nil_prefix |>.trans h.serial
  calls := by
    intro i c hc
    have hhand (i : Nat) : uses i (inHand s) = uses i (inHand s.dropAll) +
        uses i (s.loop.executes ++ s.channel.items) := by
      simp only [inHand, Actor.dropAll, Channel.items_close, Loop.executes, uses_append, uses_nil]
      omega
    simp only [Actor.dropAll, List.getElem?_mapIdx, Option.mem_def, Option.map_eq_some_iff] at hc
    obtain ⟨c', hc', rfl⟩ := hc
    have hone := hhand i
    by_cases hany : (s.loop.executes ++ s.channel.items).any (fun queued => queued.call = i) = true
    · have hpos : 0 < uses i (s.loop.executes ++ s.channel.items) :=
        uses_pos.mpr ((List.any_eq_true.mp hany).imp fun q hq => ⟨hq.1, of_decide_eq_true hq.2⟩)
      obtain ⟨hused, -, -, hhanded⟩ := h.used (i := i) (by omega)
      rw [if_pos hany]
      exact (h.calls i c' hc').replied hused (by omega) (by omega) (Or.inr ⟨rfl, Or.inl rfl⟩)
    · have hzero : uses i (s.loop.executes ++ s.channel.items) = 0 := by
        by_contra hne
        obtain ⟨q, hq, hcall⟩ := uses_pos.mp (Nat.pos_of_ne_zero hne)
        exact hany (List.any_eq_true.mpr ⟨q, hq, decide_eq_true hcall⟩)
      rw [if_neg hany]
      exact (h.calls i c' hc').frame rfl (by omega) le_rfl le_rfl fun _ => rfl
  commands := by
    intro q hq
    obtain ⟨c, hc, hcommand⟩ := h.commands q hq
    simp only [Actor.dropAll, List.getElem?_mapIdx, Option.mem_def.mp hc, Option.map_some]
    refine ⟨_, rfl, ?_⟩
    split
    · exact hcommand
    · exact hcommand

theorem dispatch_cases (s : Actor) (q : QueuedCommand) :
    q.command = .shutdown ∧ isSerial q = false ∧ s.dispatch q = { s with loop := .stopping } ∨
    isBootstrap q = true ∧ isShutdown q = false ∧ s.dispatch q = { s with background := s.background ++ [q] } ∨
    isSerial q = true ∧ isShutdown q = false ∧ s.dispatch q = { s with loop := .executing q } := by
  obtain ⟨call, command⟩ := q
  cases command with
  | shutdown => exact Or.inl ⟨rfl, rfl, rfl⟩
  | bootstrap addrs => exact Or.inr (Or.inl ⟨rfl, rfl, rfl⟩)
  | _ => exact Or.inr (Or.inr ⟨rfl, rfl, rfl⟩)

/-- The loop takes a command out of the channel. -/
theorem Accounted.recvCommand (h : Accounted s) (hloop : s.loop = .select) {q : QueuedCommand}
    {channel : Channel QueuedCommand} (hrecv : s.channel.recv = some (q, channel)) :
    Accounted ({ s with channel, received := s.received ++ [q] }.dispatch q) := by
  obtain ⟨hitems, -⟩ := Channel.recv_eq hrecv
  have hstopped : s.loop.isStopped = false := by
    rw [hloop]
    rfl
  have hserial : s.answered.filter isSerial = s.received.filter isSerial := by
    simpa [hloop, Loop.executes] using h.serial_whole hstopped
  have hnone : ∀ q ∈ s.received, isShutdown q = false := by
    intro q hq
    by_contra hshutdown
    rcases (h.shutdown q hq (by simpa using hshutdown)).1 with hs | hs
    · cases hloop.symm.trans hs
    · cases hloop.symm.trans hs
  have hwhole : s.received ++ [q] ++ channel.items = s.entered := by
    rw [← h.whole hstopped, hitems, List.append_assoc]
    rfl
  have hentered : q ∈ s.entered := by
    rw [← hwhole]
    simp
  have hfilter : (s.received ++ [q]).filter isSerial =
      s.answered.filter isSerial ++ if isSerial q = true then [q] else [] := by
    rw [List.filter_append, ← hserial]
    cases hq : isSerial q <;> simp [hq]
  have hquiet (hq : isShutdown q = false) : ∀ q' ∈ s.received ++ [q], isShutdown q' = true →
      (s.loop = .stopping ∨ s.loop = .stopped) ∧ (s.received ++ [q]).getLast? = some q' := by
    intro q' hq' hshutdown
    rcases List.mem_append.mp hq' with hq' | hq'
    · cases (hnone q' hq').symm.trans hshutdown
    · cases List.mem_singleton.mp hq'
      cases hq.symm.trans hshutdown
  have hhand (i : Nat) : uses i (inHand s) = uses i s.background + uses i channel.items +
      if q.call = i then 1 else 0 := by
    simp only [inHand, hloop, hitems, Loop.executes, uses_append, uses_cons, uses_nil]
    omega
  rcases dispatch_cases { s with channel, received := s.received ++ [q] } q with
    ⟨hshutdown, hq, hdispatch⟩ | ⟨hbootstrap, hq, hdispatch⟩ | ⟨hq', hq, hdispatch⟩
  · rw [hdispatch]
    rw [hq, if_neg Bool.false_ne_true, List.append_nil] at hfilter
    have hless (i : Nat) (loop : Loop) (hexecutes : loop.executes = []) :
        uses i (inHand s) = uses i (inHand { s with channel, received := s.received ++ [q], loop }) +
          if q.call = i then 1 else 0 := by
      rw [hhand]
      simp only [inHand, hexecutes, uses_append, uses_nil]
      omega
    refine ⟨⟨h.handlers, h.distinct, fun i => ?_, ?_, fun _ => hwhole, ?_, fun _ => ?_, h.background,
      fun q' hq' hs => ⟨Or.inl rfl, ?_⟩, by rintro ⟨⟩⟩, fun i c hc => ?_, h.commands⟩
    · have hledger := h.ledger i
      have hone := hless i .stopping rfl
      dsimp only at hone ⊢
      omega
    · rw [hwhole]
    · simp only [Loop.executes, List.append_nil, hfilter]
      exact List.prefix_rfl
    · simp only [Loop.executes, List.append_nil, hfilter]
    · rcases List.mem_append.mp hq' with hq' | hq'
      · cases (hnone q' hq').symm.trans hs
      · cases List.mem_singleton.mp hq'
        exact List.getLast?_concat
    · have hgood := h.calls i c hc
      have hone := hless i .stopping rfl
      by_cases hi : q.call = i
      · subst hi
        obtain ⟨c', hc', hcommand⟩ := h.commands q hentered
        cases hc.symm.trans hc'
        refine ⟨hgood.waiting, hgood.sending, fun _ => Or.inr (Or.inl (hcommand.trans hshutdown)),
          fun hheld => hgood.held ?_, hgood.sent, fun hd => ?_, hgood.returned⟩
        · exact hheld.trans_le ((Nat.le_add_right _ _).trans_eq hone.symm)
        · rcases hgood.dropped hd with hd | hd | hd
          · exact Or.inl hd
          · cases hloop.symm.trans hd
          · exact Or.inr (Or.inr hd)
      · rw [if_neg hi, Nat.add_zero] at hone
        exact hgood.frame rfl hone.symm le_rfl le_rfl fun hs => by cases hloop.symm.trans hs
  · rw [hdispatch]
    rw [not_serial_of_bootstrap hbootstrap, if_neg Bool.false_ne_true, List.append_nil] at hfilter
    have hsame (i : Nat) : uses i (inHand { s with
        channel, received := s.received ++ [q], background := s.background ++ [q] }) = uses i (inHand s) := by
      rw [hhand]
      simp only [inHand, hloop, Loop.executes, uses_append, uses_cons, uses_nil]
      omega
    refine ⟨⟨h.handlers, h.distinct, fun i => ?_, ?_, fun _ => hwhole, ?_, fun _ => ?_, ?_, hquiet hq,
      fun hs => by cases hstopped.symm.trans hs⟩,
      fun i c hc => (h.calls i c hc).frame rfl (hsame i) le_rfl le_rfl id, h.commands⟩
    · rw [hsame]
      exact h.ledger i
    · rw [hwhole]
    · simp only [hloop, Loop.executes, List.append_nil, hfilter]
      exact List.prefix_rfl
    · simp only [hloop, Loop.executes, List.append_nil, hfilter]
    · intro q' hq'
      rcases List.mem_append.mp hq' with hq' | hq'
      · exact h.background q' hq'
      · cases List.mem_singleton.mp hq'
        exact hbootstrap
  · rw [hdispatch]
    rw [hq', if_pos rfl] at hfilter
    have hsame (i : Nat) : uses i (inHand { s with
        channel, received := s.received ++ [q], loop := .executing q }) = uses i (inHand s) := by
      rw [hhand]
      simp only [inHand, Loop.executes, uses_append, uses_cons, uses_nil]
      omega
    refine ⟨⟨h.handlers, h.distinct, fun i => ?_, ?_, fun _ => hwhole, ?_, fun _ => ?_, h.background,
      fun q' hq' hs => ?_, by rintro ⟨⟩⟩, fun i c hc => (h.calls i c hc).frame rfl (hsame i) le_rfl le_rfl ?_, h.commands⟩
    · rw [hsame]
      exact h.ledger i
    · rw [hwhole]
    · simp only [Loop.executes, hfilter]
      exact List.prefix_rfl
    · simp only [Loop.executes, hfilter]
    · rcases (hquiet hq q' hq' hs).1 with hs | hs
      · cases hloop.symm.trans hs
      · cases hloop.symm.trans hs
    · rintro hs
      cases hloop.symm.trans hs

/-- Handlers begin within the limit, and end. -/
theorem Accounted.handlers_of (h : Accounted s) {handlers : List (SocketAddr × Message)} (dropped : Nat)
    (hle : handlers.length ≤ s.maxConcurrentHandlers) :
    Accounted { s with handlers, handlerDropped := dropped } :=
  ⟨⟨hle, h.distinct, h.ledger, h.fifo, h.whole, h.serial, h.serial_whole, h.background, h.shutdown,
    h.closed⟩, fun i c hc => (h.calls i c hc).frame rfl rfl le_rfl le_rfl id, h.commands⟩

theorem Accounted.disconnect (h : Accounted s) : Accounted { s with connected := false } :=
  ⟨⟨h.handlers, h.distinct, h.ledger, h.fifo, h.whole, h.serial, h.serial_whole, h.background, h.shutdown,
    h.closed⟩, fun i c hc => (h.calls i c hc).frame rfl rfl le_rfl le_rfl id, h.commands⟩

/-! ## Runs -/

theorem accounted_new (commandChannelSize maxConcurrentHandlers : Nat) :
    Accounted (.new commandChannelSize maxConcurrentHandlers) where
  toOrdered := ⟨Nat.zero_le _, fun _ => Nat.zero_le _, fun _ => le_rfl, List.prefix_rfl, fun _ => rfl,
    List.prefix_rfl, fun _ => rfl, by rintro _ ⟨⟩, by rintro _ ⟨⟩, by rintro ⟨⟩⟩
  calls := by rintro _ _ ⟨⟩
  commands := by rintro _ ⟨⟩

theorem step_accounted (s : Actor) (a : Actor.Action) (h : Accounted s) : Accounted (s.step a) := by
  cases a with
  | call command =>
    dsimp only [step]
    split
    · exact h.call command
    · exact h
  | enter i =>
    dsimp only [step]
    split
    next c hc =>
      split_ifs with hok
      · exact h.enter hc hok.1 (by simpa using hok.2)
      · exact h
    next => exact h
  | refuse i =>
    dsimp only [step]
    split
    next c hc =>
      split_ifs with hok
      · refine h.refuse hc hok.1 ?_
        cases hloop : s.loop with
        | stopped => rfl
        | _ =>
          rw [hloop] at hok
          cases hok.2
      · exact h
    next => exact h
  | abandon i => exact h.abandon i
  | read i => exact h.read i
  | disconnect =>
    dsimp only [step]
    split
    · exact h
    · exact h.disconnect
  | recvCommand =>
    dsimp only [step]
    split
    next q channel hloop hrecv => exact h.recvCommand hloop hrecv
    next hloop hrecv =>
      split
      · exact h
      · exact h.loop (by rw [hloop]; exact ⟨by rintro ⟨⟩, by rintro ⟨⟩⟩) rfl (by rw [hloop]; rfl)
    next => exact h
  | finish a =>
    dsimp only [step]
    split
    next q hloop => exact h.finish hloop a
    next => exact h
  | finishBackground n a =>
    dsimp only [step]
    split
    next q hn => exact h.finishBackground hn a
    next => exact h
  | recvRequest fromAddr msg =>
    dsimp only [step]
    split
    next hloop =>
      split
      next hlt => exact h.handlers_of _ (by rw [List.length_append]; exact hlt)
      next => exact h.handlers_of _ h.handlers
    next => exact h
  | recvError e =>
    dsimp only [step]
    split
    next hloop =>
      split
      · exact h.loop (by rw [hloop]; exact ⟨by rintro ⟨⟩, by rintro ⟨⟩⟩) rfl (by rw [hloop]; rfl)
      · exact h
    next => exact h
  | handled n =>
    exact h.handlers_of _ ((List.length_eraseIdx_le _ _).trans h.handlers)
  | tick t =>
    dsimp only [step]
    split
    next hloop => exact h.loop (by rw [hloop]; exact ⟨by rintro ⟨⟩, by rintro ⟨⟩⟩) rfl (by rw [hloop]; rfl)
    next => exact h
  | tickDone =>
    dsimp only [step]
    split
    next t hloop => exact h.loop (by rw [hloop]; exact ⟨by rintro ⟨⟩, by rintro ⟨⟩⟩) rfl (by rw [hloop]; rfl)
    next => exact h
  | stop =>
    dsimp only [step]
    split
    next hloop => exact h.dropAll
    next => exact h
  | panic =>
    dsimp only [step]
    split
    next q hloop => exact h.dropAll
    next t hloop => exact h.dropAll
    next => exact h
  | panicBackground n =>
    dsimp only [step]
    split
    next q hn => exact h.panicBackground hn
    next => exact h

theorem run_accounted (commandChannelSize maxConcurrentHandlers : Nat) (as : List Actor.Action) :
    Accounted (run Actor.step (.new commandChannelSize maxConcurrentHandlers) as) :=
  run_inv (I := Accounted) (fun s a h _ => step_accounted s a h)
    (accounted_new commandChannelSize maxConcurrentHandlers) (meets_of_forall (fun _ _ => trivial) _ as)

/-- The limits do not change. -/
theorem step_limits (s : Actor) (a : Actor.Action) :
    (s.step a).maxConcurrentHandlers = s.maxConcurrentHandlers ∧
      (s.step a).channel.capacity = s.channel.capacity := by
  cases a with
  | enter i =>
    dsimp only [step]
    split
    · split_ifs
      · unfold Actor.enter
        split
        next hsend => exact ⟨rfl, (Channel.send_eq hsend).2⟩
        next => exact ⟨rfl, rfl⟩
      · exact ⟨rfl, rfl⟩
    · exact ⟨rfl, rfl⟩
  | recvCommand =>
    dsimp only [step]
    split
    next q channel hloop hrecv =>
      have hcapacity := (Channel.recv_eq hrecv).2
      rcases dispatch_cases { s with channel, received := s.received ++ [q] } q with
        ⟨-, -, h⟩ | ⟨-, -, h⟩ | ⟨-, -, h⟩
      · rw [h]
        exact ⟨rfl, hcapacity⟩
      · rw [h]
        exact ⟨rfl, hcapacity⟩
      · rw [h]
        exact ⟨rfl, hcapacity⟩
    · split <;> exact ⟨rfl, rfl⟩
    · exact ⟨rfl, rfl⟩
  | refuse i =>
    dsimp only [step]
    split
    · split <;> exact ⟨rfl, rfl⟩
    · exact ⟨rfl, rfl⟩
  | recvRequest fromAddr msg =>
    dsimp only [step]
    split
    · split <;> exact ⟨rfl, rfl⟩
    · exact ⟨rfl, rfl⟩
  | recvError e =>
    dsimp only [step]
    split
    · split <;> exact ⟨rfl, rfl⟩
    · exact ⟨rfl, rfl⟩
  | abandon | read | handled => exact ⟨rfl, rfl⟩
  | _ =>
    dsimp only [step]
    split <;> exact ⟨rfl, rfl⟩

theorem run_limits (s : Actor) (as : List Actor.Action) :
    (run Actor.step s as).maxConcurrentHandlers = s.maxConcurrentHandlers ∧
      (run Actor.step s as).channel.capacity = s.channel.capacity := by
  induction as generalizing s with
  | nil => exact ⟨rfl, rfl⟩
  | cons a as ih =>
    obtain ⟨hmax, hcapacity⟩ := step_limits s a
    obtain ⟨hmax', hcapacity'⟩ := ih (s.step a)
    exact ⟨hmax'.trans hmax, hcapacity'.trans hcapacity⟩

theorem nodup_of_uses {l : List QueuedCommand} (h : ∀ i, uses i l ≤ 1) : (l.map QueuedCommand.call).Nodup := by
  rw [List.nodup_iff_count_le_one]
  intro i
  rw [List.count, List.countP_map]
  refine le_trans (le_of_eq ?_) (h i)
  exact List.countP_congr fun q _ => by simp

/-- In every run: the commands come out of the channel in the order in which they went in, each is
answered at most once, and those that the loop executes are answered in that order. Nothing comes after a
shutdown. Who waits without an answer is not forgotten, and who has returned has the answer to the own
command, unless the actor or the own task has ended. -/
theorem calls_accounted (commandChannelSize maxConcurrentHandlers : Nat) (as : List Actor.Action) :
    let s := run Actor.step (.new commandChannelSize maxConcurrentHandlers) as
    s.handlers.length ≤ maxConcurrentHandlers ∧ (s.entered.map QueuedCommand.call).Nodup ∧
    (s.answered.map QueuedCommand.call).Nodup ∧ s.received <+: s.entered ∧
    s.answered.filter isSerial <+: s.received.filter isSerial ∧
    (∀ q ∈ s.received, q.command = .shutdown → s.received.getLast? = some q) ∧
    ∀ (i : Nat), ∀ c ∈ s.calls[i]?,
      (c.pc = .waiting → c.reply = .pending → ∃ q ∈ inHand s, q.call = i) ∧
      ∀ r, c.pc = .returned r → c.command = .shutdown ∨
        (c.reply = .sent r ∧ ∃ q ∈ s.answered, q.call = i) ∨
        r = .error nodeStopped ∧ (s.loop = .stopped ∨ ∃ q ∈ s.panicked, q.call = i) := by
  intro s
  have h : Accounted s := run_accounted commandChannelSize maxConcurrentHandlers as
  have hmax : s.maxConcurrentHandlers = maxConcurrentHandlers := (run_limits _ as).1
  refine ⟨hmax ▸ h.handlers, nodup_of_uses h.distinct, nodup_of_uses fun i => ?_,
    (List.prefix_append _ _).trans h.fifo, (List.prefix_append _ _).trans h.serial, fun q hq hshutdown => ?_,
    fun i c hc => ⟨fun hwaiting hreply => ?_, fun r hr => ?_⟩⟩
  · have hledger := h.ledger i
    have hdistinct := h.distinct i
    omega
  · exact (h.shutdown q hq (by rw [isShutdown, hshutdown])).2
  · have hgood := h.calls i c hc
    rcases hgood.pending hreply with hsending | hshutdown | hheld
    · rw [Call.isSending, hwaiting] at hsending
      cases hsending
    · exact absurd hshutdown (hgood.waiting hwaiting)
    · exact uses_pos.mp hheld
  · have hgood := h.calls i c hc
    rcases hgood.returned r hr with hshutdown | hsent | ⟨hdropped, hstopped⟩
    · exact Or.inl hshutdown
    · exact Or.inr (Or.inl ⟨hsent, uses_pos.mp (hgood.sent r hsent)⟩)
    · refine Or.inr (Or.inr ⟨hstopped, ?_⟩)
      rcases hgood.dropped hdropped with habandoned | hloop | hpanicked
      · cases hr.symm.trans habandoned
      · exact Or.inl hloop
      · exact Or.inr (uses_pos.mp hpanicked)

end

end TesserasDht.Actors
