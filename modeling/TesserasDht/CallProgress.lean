import TesserasDht.Actor

/-!
# No call waits in vain

From every state that a run reaches, the loop and the tasks can go on so that a call that waits returns.
The loop serves the channel until it is empty, and then the task of the command ends.
-/

open Lib.Runs Lib.Lists Lib.Channels

namespace TesserasDht.CallProgress

open Actor Actors

/-- The loop and the tasks go on, and callers go on. Nothing begins, gives up or panics. -/
def goesOn : Actor.Action → Bool
  | .enter _ | .refuse _ | .read _ | .recvCommand | .finish _ | .finishBackground _ _ | .tickDone | .stop => true
  | _ => false

/-- The calls stand where they stood. Some have a reply by now. -/
def SameCalls (s s' : Actor) : Prop :=
  ∀ (i : Nat), ∀ c ∈ s.calls[i]?, ∃ c' ∈ s'.calls[i]?, c'.isSending = c.isSending ∧
    (c.pc = .waiting → c'.pc = .waiting) ∧ c'.command = c.command

/-- The loop goes on, and nothing in the channel ends it. -/
def Stays (s : Actor) : Prop :=
  s.loop ≠ .stopping ∧ s.loop ≠ .stopped ∧ s.connected = true ∧ ∀ q ∈ s.channel.items, q.command ≠ .shutdown

/-- There is nothing that the loop has to do. -/
def Drained (s : Actor) : Prop :=
  (s.loop = .select ∨ s.loop = .stopped) ∧ s.channel.items = []

/-- The actions lead from one state to the other. -/
def Goes (s s' : Actor) : Prop := ∃ as, (∀ a ∈ as, goesOn a = true) ∧ run Actor.step s as = s'

/-- What the loop still has to do. -/
def todo (s : Actor) : Nat := 2 * s.channel.items.length + match s.loop with
  | .select | .stopped => 0
  | _ => 1

/-! ## Ways -/

section

variable {s s' s'' : Actor} {i : Nat} {c : Call}

theorem Goes.refl (s : Actor) : Goes s s := ⟨[], by rintro _ ⟨⟩, rfl⟩

theorem Goes.trans (h : Goes s s') (h' : Goes s' s'') : Goes s s'' := by
  obtain ⟨as, has, rfl⟩ := h
  obtain ⟨bs, hbs, rfl⟩ := h'
  refine ⟨as ++ bs, fun a ha => ?_, run_append s as bs⟩
  rcases List.mem_append.mp ha with ha | ha
  · exact has a ha
  · exact hbs a ha

theorem Goes.single (s : Actor) {a : Actor.Action} (ha : goesOn a = true) : Goes s (s.step a) :=
  ⟨[a], by simpa using ha, rfl⟩

theorem Goes.accounted (h : Goes s s') (hs : Accounted s) : Accounted s' := by
  obtain ⟨as, -, rfl⟩ := h
  exact run_inv (I := Accounted) (fun s a h _ => step_accounted s a h) hs (meets_of_forall (fun _ _ => trivial) _ as)

theorem Goes.capacity (h : Goes s s') : s'.channel.capacity = s.channel.capacity := by
  obtain ⟨as, -, rfl⟩ := h
  exact (run_limits s as).2

theorem SameCalls.refl (s : Actor) : SameCalls s s := fun _ c hc => ⟨c, hc, rfl, id, rfl⟩

theorem SameCalls.trans (h : SameCalls s s') (h' : SameCalls s' s'') : SameCalls s s'' := by
  intro i c hc
  obtain ⟨c', hc', hsending, hwaiting, hcommand⟩ := h i c hc
  obtain ⟨c'', hc'', hsending', hwaiting', hcommand'⟩ := h' i c' hc'
  exact ⟨c'', hc'', hsending'.trans hsending, fun hpc => hwaiting' (hwaiting hpc), hcommand'.trans hcommand⟩

theorem sameCalls_answer (s : Actor) (i : Nat) (a : Answer) : SameCalls s (s.modifyCall i (Call.answer a)) := by
  intro j c hc
  by_cases hij : i = j
  · refine ⟨c.answer a, ?_, isSending_reply c _, id, rfl⟩
    simp [modifyCall, hij, Option.mem_def.mp hc]
  · refine ⟨c, ?_, rfl, id, rfl⟩
    simp [modifyCall, hij, Option.mem_def.mp hc]

theorem sameCalls_dropAll (s : Actor) : SameCalls s s.dropAll := by
  intro i c hc
  by_cases hany : (s.loop.executes ++ s.channel.items).any (fun queued => queued.call = i) = true
  · refine ⟨c.drop, ?_, isSending_reply c _, id, rfl⟩
    rw [Option.mem_def, Actor.dropAll, List.getElem?_mapIdx, Option.mem_def.mp hc, Option.map_some, if_pos hany]
  · refine ⟨c, ?_, rfl, id, rfl⟩
    rw [Option.mem_def, Actor.dropAll, List.getElem?_mapIdx, Option.mem_def.mp hc, Option.map_some, if_neg hany]

/-! ## The loop -/

/-- The loop comes closer to its end. -/
theorem step_todo (hs : Accounted s) (h : ¬ Drained s) :
    ∃ s', Goes s s' ∧ todo s' < todo s ∧ SameCalls s s' ∧ (Stays s → Stays s') := by
  cases hloop : s.loop with
  | select =>
    cases hitems : s.channel.items with
    | nil => exact absurd ⟨Or.inl hloop, hitems⟩ h
    | cons q rest =>
      obtain ⟨channel, hrecv, rfl⟩ := Channel.recv_cons hitems
      have hstep : s.step .recvCommand = { s with channel, received := s.received ++ [q] }.dispatch q := by
        simp only [step, hloop, hrecv]
      refine ⟨_, Goes.single s (a := .recvCommand) rfl, ?_, ?_, ?_⟩
      · rw [hstep]
        rcases dispatch_cases { s with channel, received := s.received ++ [q] } q with
          ⟨-, -, h⟩ | ⟨-, -, h⟩ | ⟨-, -, h⟩
        · rw [h]
          simp [todo, hloop, hitems]
          omega
        · rw [h]
          simp [todo, hloop, hitems]
        · rw [h]
          simp [todo, hloop, hitems]
          omega
      · rw [hstep]
        rcases dispatch_cases { s with channel, received := s.received ++ [q] } q with
          ⟨-, -, h⟩ | ⟨-, -, h⟩ | ⟨-, -, h⟩
        all_goals
          rw [h]
          exact SameCalls.refl s
      · rintro ⟨hstopping, hstopped, hconnected, hquiet⟩
        rw [hitems] at hquiet
        rw [hstep]
        rcases dispatch_cases { s with channel, received := s.received ++ [q] } q with
          ⟨hq, -, -⟩ | ⟨-, -, h⟩ | ⟨-, -, h⟩
        · exact absurd hq (hquiet q List.mem_cons_self)
        · rw [h]
          exact ⟨hstopping, hstopped, hconnected, fun q' hq' => hquiet q' (List.mem_cons_of_mem _ hq')⟩
        · rw [h]
          exact ⟨by rintro ⟨⟩, by rintro ⟨⟩, hconnected, fun q' hq' => hquiet q' (List.mem_cons_of_mem _ hq')⟩
  | executing q =>
    have hstep : s.step (.finish fun _ => .error .timeout) =
        { s.send q (fun _ => .error .timeout) with loop := .select } := by
      simp only [step, hloop]
    refine ⟨_, Goes.single s (a := .finish fun _ => .error .timeout) rfl, ?_, ?_, ?_⟩
    · rw [hstep]
      simp [todo, hloop, send, modifyCall]
    · rw [hstep]
      exact sameCalls_answer s q.call _
    · rintro ⟨-, -, hconnected, hquiet⟩
      rw [hstep]
      exact ⟨by rintro ⟨⟩, by rintro ⟨⟩, hconnected, hquiet⟩
  | ticking t =>
    have hstep : s.step .tickDone = { s with loop := .select } := by
      simp only [step, hloop]
    refine ⟨_, Goes.single s (a := .tickDone) rfl, ?_, ?_, ?_⟩
    · rw [hstep]
      simp [todo, hloop]
    · rw [hstep]
      exact SameCalls.refl s
    · rintro ⟨-, -, hconnected, hquiet⟩
      rw [hstep]
      exact ⟨by rintro ⟨⟩, by rintro ⟨⟩, hconnected, hquiet⟩
  | stopping =>
    have hstep : s.step .stop = s.dropAll := by
      simp only [step, hloop]
    refine ⟨_, Goes.single s (a := .stop) rfl, ?_, ?_, fun hstays => absurd hloop hstays.1⟩
    · rw [hstep]
      simp [todo, hloop, Actor.dropAll]
    · rw [hstep]
      exact sameCalls_dropAll s
  | stopped => exact absurd ⟨Or.inr hloop, hs.closed (by rw [hloop]; rfl)⟩ h

/-- By induction on what the loop has to do. -/
theorem drain (hs : Accounted s) : ∃ s', Goes s s' ∧ Drained s' ∧ SameCalls s s' ∧ (Stays s → Stays s') := by
  induction htodo : todo s using Nat.strong_induction_on generalizing s with
  | _ n ih =>
    by_cases hdrained : Drained s
    · exact ⟨s, Goes.refl s, hdrained, SameCalls.refl s, id⟩
    · obtain ⟨s', hgoes, hless, hsame, hstays⟩ := step_todo hs hdrained
      obtain ⟨s'', hgoes', hdrained', hsame', hstays'⟩ := ih _ (htodo ▸ hless) (hgoes.accounted hs) rfl
      exact ⟨s'', hgoes.trans hgoes', hdrained', hsame.trans hsame', fun h => hstays' (hstays h)⟩

/-! ## The caller -/

/-- The call has returned. -/
def Returned (s : Actor) (i : Nat) : Prop := ∃ c ∈ s.calls[i]?, ∃ r, c.pc = .returned r

theorem modifyCall_some (hc : c ∈ s.calls[i]?) (f : Call → Call) : f c ∈ (s.modifyCall i f).calls[i]? := by
  simp [modifyCall, Option.mem_def.mp hc]

theorem read_returns (hc : c ∈ s.calls[i]?) (hpc : c.pc = .waiting) (hreply : c.reply ≠ .pending) :
    Returned (s.step (.read i)) i := by
  refine ⟨c.read, modifyCall_some hc Call.read, ?_⟩
  obtain ⟨command, pc, reply⟩ := c
  obtain rfl : pc = .waiting := hpc
  cases reply with
  | pending => exact absurd rfl hreply
  | sent r => exact ⟨r, rfl⟩
  | dropped => exact ⟨_, rfl⟩

/-- The reply comes from a bootstrap in the background, or is there. -/
theorem waiting_returns (hs : Accounted s) (hdrained : Drained s) (hc : c ∈ s.calls[i]?)
    (hpc : c.pc = .waiting) : ∃ s', Goes s s' ∧ Returned s' i ∧ (Stays s → Stays s') := by
  by_cases hreply : c.reply = .pending
  · have hgood := hs.calls i c hc
    have hheld : 0 < uses i (inHand s) := by
      rcases hgood.pending hreply with hsending | hshutdown | hheld
      · rw [Call.isSending, hpc] at hsending
        cases hsending
      · exact absurd hshutdown (hgood.waiting hpc)
      · exact hheld
    obtain ⟨q, hq, hcall⟩ := uses_pos.mp hheld
    have hexecutes : s.loop.executes = [] := by
      rcases hdrained.1 with hloop | hloop
      · rw [hloop]
        rfl
      · rw [hloop]
        rfl
    rw [inHand, hexecutes, hdrained.2, List.append_nil, List.nil_append] at hq
    obtain ⟨n, hn⟩ := List.mem_iff_getElem?.mp hq
    subst hcall
    have hstep : s.step (.finishBackground n fun _ => .error .timeout) =
        { s.send q (fun _ => .error .timeout) with background := s.background.eraseIdx n } := by
      simp only [step, hn]
    have hread : Returned ((s.step (.finishBackground n fun _ => .error .timeout)).step (.read q.call)) q.call := by
      rw [hstep]
      exact read_returns (c := c.answer fun _ => .error .timeout) (modifyCall_some hc _) hpc (by rintro ⟨⟩)
    refine ⟨_, (Goes.single s (a := .finishBackground n fun _ => .error .timeout) rfl).trans
      (Goes.single _ (a := .read q.call) rfl), hread, fun hstays => ?_⟩
    rw [hstep]
    exact hstays
  · exact ⟨_, Goes.single s (a := .read i) rfl, read_returns hc hpc hreply, id⟩

theorem sending_returns (hs : Accounted s) (hdrained : Drained s) (hcapacity : 0 < s.channel.capacity)
    (hc : c ∈ s.calls[i]?) (hsending : c.isSending = true) :
    ∃ s', Goes s s' ∧ Returned s' i ∧ (Stays s → c.command ≠ .shutdown → Stays s') := by
  rcases hdrained.1 with hloop | hloop
  · obtain ⟨hreply, -, -⟩ := hs.unsent (hs.calls i c hc) hsending
    obtain ⟨channel, hsend⟩ := Channel.send_of_empty hdrained.2 hcapacity ⟨i, c.command⟩
    have hstep : s.step (.enter i) =
        { s.modifyCall i Call.enter with channel, entered := s.entered ++ [⟨i, c.command⟩] } := by
      simp only [step, Option.mem_def.mp hc, hsending, hloop, Loop.isStopped, Bool.false_eq_true, not_false_eq_true,
        and_self, if_true, Actor.enter, hsend]
    have hgoes := Goes.single s (a := .enter i) rfl
    have hstays : Stays s → c.command ≠ .shutdown → Stays (s.step (.enter i)) := by
      rintro ⟨hstopping, hstopped, hconnected, -⟩ hcommand
      rw [hstep]
      refine ⟨hstopping, hstopped, hconnected, fun q hq => ?_⟩
      rw [(Channel.send_eq hsend).1, hdrained.2] at hq
      obtain rfl := List.mem_singleton.mp hq
      exact hcommand
    have hcall : c.enter ∈ (s.step (.enter i)).calls[i]? := by
      rw [hstep]
      exact modifyCall_some hc Call.enter
    obtain ⟨-, -, ⟨-, r, hr⟩ | ⟨-, hwaiting⟩⟩ := enter_call hreply
    · exact ⟨_, hgoes, ⟨c.enter, hcall, r, hr⟩, hstays⟩
    · -- the loop takes the command, and ends it unless it is a bootstrap
      obtain ⟨s', hgoes', hdrained', hsame, hstays'⟩ := drain (hgoes.accounted hs)
      obtain ⟨c', hc', -, hpc, -⟩ := hsame i c.enter hcall
      obtain ⟨s'', hgoes'', hreturned, hstays''⟩ :=
        waiting_returns ((hgoes.trans hgoes').accounted hs) hdrained' hc' (hpc hwaiting)
      exact ⟨s'', (hgoes.trans hgoes').trans hgoes'', hreturned, fun h hcommand =>
        hstays'' (hstays' (hstays h hcommand))⟩
  · have hstep : s.step (.refuse i) = s.modifyCall i Call.refuse := by
      simp only [step, Option.mem_def.mp hc, hsending, hloop, Loop.isStopped, and_self, if_true]
    refine ⟨_, Goes.single s (a := .refuse i) rfl, ?_, fun hstays => absurd hloop hstays.2.1⟩
    rw [hstep]
    exact ⟨c.refuse, modifyCall_some hc _, (refuse_call c).2.1⟩

/-- Two calls, the first of which has the only place in the channel. -/
def twoCalls : List Actor.Action :=
  [.call (.getProviders (Bytes32.fill 1)), .call (.getProviders (Bytes32.fill 2)), .enter 0, .enter 1]

end

end TesserasDht.CallProgress
