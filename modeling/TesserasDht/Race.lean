import TesserasDht.Lib.Runs
import TesserasDht.Code.SendAny

/-! # One request to many addresses tries all of them -/

open Lib.Runs
open scoped List

namespace TesserasDht.Race

open SendAny

/-- The addresses whose request failed, as places in the list. -/
def failed (events : List Wake) : List Nat :=
  events.filterMap fun e => match e with
    | .completed i (.error _) => some i
    | _ => none

def NoneSucceeded (events : List Wake) : Prop := ∀ i resp, .completed i (.ok resp) ∉ events

/-- What holds at the `select!`: every launched request is in flight or has failed. -/
structure Racing (addrs : List SocketAddr) (events : List Wake) (launched : List Attempt) (a : Attempts) : Prop where
  order : launched ++ a.pending = addrs.zipIdx
  accounted : (a.futs.map Prod.snd ++ failed events).Perm (launched.map Prod.snd)
  alone : NoneSucceeded events

structure AllFailed (addrs : List SocketAddr) (events : List Wake) (launched : List Attempt) : Prop where
  order : launched = addrs.zipIdx
  accounted : (failed events).Perm (launched.map Prod.snd)
  alone : NoneSucceeded events

/-- What holds after any events, by where the call is. -/
def Inv (addrs : List SocketAddr) (events : List Wake) (s : SendAny) : Prop :=
  match s.progress with
  | .direct => addrs.length = 1 ∧ s.launched = addrs.zipIdx ∧ events = []
  | .select a => Racing addrs events s.launched a ∧ (nextEnabled a ∨ staggerEnabled a)
  | .returned (.ok resp) => s.launched <+: addrs.zipIdx ∧
      ∃ before i, events = before ++ [.completed i (.ok resp)] ∧ NoneSucceeded before ∧
        i < addrs.length ∧ i ∉ failed before
  | .returned (.error _) => AllFailed addrs events s.launched
  | .unwrapped => False
  | .allDisabled => False

/-! ## One step -/

section

variable {addrs : List SocketAddr} {events : List Wake} {launched : List Attempt} {a : Attempts} {s : SendAny}

theorem failed_completed (events : List Wake) (i : Nat) (e : TesseraError) :
    failed (events ++ [.completed i (.error e)]) = failed events ++ [i] := by
  simp [failed]

theorem failed_stagger (events : List Wake) : failed (events ++ [.stagger]) = failed events := by
  simp [failed]

theorem failed_succeeded (events : List Wake) (i : Nat) (resp : Message) :
    failed (events ++ [.completed i (.ok resp)]) = failed events := by
  simp [failed]

theorem mem_failed {i : Nat} : i ∈ failed events ↔ ∃ e, Wake.completed i (.error e) ∈ events := by
  unfold failed
  rw [List.mem_filterMap]
  constructor
  · rintro ⟨event, hmem, hevent⟩
    split at hevent
    next e =>
      cases hevent
      exact ⟨e, hmem⟩
    next => cases hevent
  · rintro ⟨e, hmem⟩
    exact ⟨_, hmem, rfl⟩

theorem futs_perm {futs : List Attempt} {i : Nat} (hi : i ∈ futs.map Prod.snd) :
    (futs.map Prod.snd).Perm (i :: (futs.eraseP fun f => f.2 = i).map Prod.snd) := by
  have herase : (futs.eraseP fun f => f.2 = i).map Prod.snd = (futs.map Prod.snd).erase i := by
    rw [List.erase_eq_eraseP', List.eraseP_map]
    rfl
  rw [herase]
  exact List.perm_cons_erase hi

theorem NoneSucceeded.append (h : NoneSucceeded events) {e : Wake} (he : ∀ i resp, e ≠ .completed i (.ok resp)) :
    NoneSucceeded (events ++ [e]) := by
  intro i resp hmem
  rcases List.mem_append.mp hmem with hold | hnew
  · exact h i resp hold
  · exact he i resp (List.mem_singleton.mp hnew).symm

theorem places (addrs : List SocketAddr) : addrs.zipIdx.map Prod.snd = List.range' 0 addrs.length :=
  List.zipIdx_map_snd 0 addrs

theorem places_nodup (addrs : List SocketAddr) : (addrs.zipIdx.map Prod.snd).Nodup := by
  rw [places]
  exact List.nodup_range'

theorem mem_places {i : Nat} : i ∈ addrs.zipIdx.map Prod.snd ↔ i < addrs.length := by
  rw [places, List.mem_range'_1]
  omega

theorem Racing.nodup (h : Racing addrs events launched a) :
    (a.futs.map Prod.snd ++ failed events).Nodup ∧ (launched.map Prod.snd ++ a.pending.map Prod.snd).Nodup := by
  have hall := places_nodup addrs
  rw [← h.order, List.map_append] at hall
  exact ⟨h.accounted.nodup_iff.mpr hall.of_append_left, hall⟩

theorem Racing.in_flight (h : Racing addrs events launched a) {i : Nat} (hi : i ∈ a.futs.map Prod.snd) :
    i < addrs.length ∧ i ∉ failed events := by
  have hlaunched : i ∈ launched.map Prod.snd := h.accounted.mem_iff.mp (List.mem_append_left _ hi)
  constructor
  · rw [← mem_places, ← h.order, List.map_append]
    exact List.mem_append_left _ hlaunched
  · exact fun hfailed => List.disjoint_of_nodup_append h.nodup.1 hi hfailed

/-- The head of the loop: it returns when nothing is in flight and nothing is left. -/
theorem inv_loop (h : Racing addrs events launched a) : Inv addrs events (loop launched a) := by
  unfold loop
  split
  next hdone =>
    obtain ⟨hfuts, hpending⟩ := hdone
    have horder := h.order
    have haccounted := h.accounted
    rw [hpending, List.append_nil] at horder
    rw [hfuts, List.map_nil, List.nil_append] at haccounted
    exact ⟨horder, haccounted, h.alone⟩
  next hleft =>
    have henabled : nextEnabled a ∨ staggerEnabled a := Decidable.not_and_iff_or_not.mp hleft
    rw [if_pos henabled]
    exact ⟨h, henabled⟩

theorem racing_failed (h : Racing addrs events launched a) {i : Nat} (hi : i ∈ a.futs.map Prod.snd)
    (e : TesseraError) :
    Racing addrs (events ++ [.completed i (.error e)]) launched
      { a with futs := a.futs.eraseP fun f => f.2 = i, lastErr := e } where
  order := h.order
  accounted := by
    rw [failed_completed]
    calc (a.futs.eraseP fun f => f.2 = i).map Prod.snd ++ (failed events ++ [i])
      _ = (a.futs.eraseP fun f => f.2 = i).map Prod.snd ++ failed events ++ [i] := (List.append_assoc ..).symm
      _ ~ i :: ((a.futs.eraseP fun f => f.2 = i).map Prod.snd ++ failed events) := List.perm_append_singleton ..
      _ ~ a.futs.map Prod.snd ++ failed events := (futs_perm hi).symm.append_right _
      _ ~ launched.map Prod.snd := h.accounted
  alone := h.alone.append fun _ _ heq => by cases heq

theorem racing_launched (h : Racing addrs events launched a) {next : Attempt} {pending : List Attempt}
    (hpending : a.pending = next :: pending) :
    Racing addrs (events ++ [.stagger]) (launched ++ [next]) { a with futs := a.futs ++ [next], pending } where
  order := by
    rw [← h.order, hpending, List.append_assoc, List.singleton_append]
  accounted := by
    rw [failed_stagger, List.map_append, List.map_append, List.append_assoc]
    calc a.futs.map Prod.snd ++ next.2 :: failed events
      _ ~ next.2 :: (a.futs.map Prod.snd ++ failed events) := List.perm_middle
      _ ~ next.2 :: launched.map Prod.snd := h.accounted.cons _
      _ ~ launched.map Prod.snd ++ [next.2] := (List.perm_append_singleton ..).symm
  alone := h.alone.append fun _ _ heq => by cases heq

theorem inv_start (hne : addrs ≠ []) : Inv addrs [] (start addrs) := by
  unfold start
  split
  next h => exact absurd (List.zipIdx_eq_nil_iff.mp h) hne
  next only h =>
    have hlen := congrArg List.length h
    rw [List.length_zipIdx] at hlen
    exact ⟨hlen, h.symm, rfl⟩
  next first pending _ h =>
    refine inv_loop ⟨h.symm, ?_, fun i resp hmem => ?_⟩
    · exact List.Perm.refl _
    · cases hmem

theorem inv_step (event : Wake) (h : Inv addrs events s) (hpossible : Possible s event) :
    Inv addrs (events ++ [event]) (step s event) := by
  obtain ⟨launched, progress⟩ := s
  cases progress with
  | direct =>
    obtain ⟨hlen, horder, rfl⟩ := h
    cases event with
    | stagger => cases hpossible
    | completed i result =>
      cases result with
      | ok resp =>
        refine ⟨⟨[], by rw [List.append_nil]; exact horder⟩, [], i, rfl, fun _ _ hmem => ?_, ?_, List.not_mem_nil⟩
        · cases hmem
        · rw [hlen, show i = 0 from hpossible]
          exact Nat.one_pos
      | error e =>
        have hzero : i = 0 := hpossible
        refine ⟨horder, ?_, fun _ _ hmem => ?_⟩
        · have hplaces : launched.map Prod.snd = [0] := by
            rw [show launched = addrs.zipIdx from horder, List.zipIdx_map_snd, hlen]
            rfl
          change [i] ~ launched.map Prod.snd
          rw [hplaces, hzero]
        · cases List.mem_singleton.mp hmem
  | select a =>
    obtain ⟨hracing, -⟩ := h
    cases event with
    | stagger =>
      cases hpending : a.pending with
      | nil => exact absurd hpending hpossible
      | cons next pending =>
        have hstep : step ⟨launched, .select a⟩ .stagger =
            loop (launched ++ [next]) { a with futs := a.futs ++ [next], pending } := by
          simp only [step, hpending]
        rw [hstep]
        exact inv_loop (racing_launched hracing hpending)
    | completed i result =>
      cases result with
      | ok resp =>
        exact ⟨⟨a.pending, hracing.order⟩, events, i, rfl, hracing.alone, hracing.in_flight hpossible.2⟩
      | error e => exact inv_loop (racing_failed hracing hpossible.2 e)
  | returned result => cases event <;> cases hpossible
  | unwrapped => exact h.elim
  | allDisabled => exact h.elim

/-! ## Every run -/

theorem inv_run (hne : addrs ≠ []) (hpossible : Meets step Possible (start addrs) events) :
    Inv addrs events (run step (start addrs) events) :=
  run_history (I := Inv addrs) (fun _ _ event h hp => inv_step event h hp) (inv_start hne) hpossible

theorem launched_in_order (h : Inv addrs events s) : s.launched <+: addrs.zipIdx := by
  obtain ⟨launched, progress⟩ := s
  cases progress with
  | direct => exact ⟨[], by rw [List.append_nil]; exact h.2.1⟩
  | select a => exact ⟨a.pending, h.1.order⟩
  | returned result =>
    cases result with
    | ok => exact h.1
    | error => exact ⟨[], by rw [List.append_nil]; exact h.order⟩
  | unwrapped | allDisabled => exact h.elim

theorem returned_ok (h : Inv addrs events s) {i : Nat} {resp : Message} (hmem : .completed i (.ok resp) ∈ events) :
    s.progress = .returned (.ok resp) ∧ ∃ before, events = before ++ [.completed i (.ok resp)] := by
  obtain ⟨launched, progress⟩ := s
  cases progress with
  | direct =>
    obtain ⟨-, -, rfl⟩ := h
    cases hmem
  | select a => exact absurd hmem (h.1.alone i resp)
  | returned result =>
    cases result with
    | ok resp' =>
      obtain ⟨-, before, j, rfl, halone, -⟩ := h
      rcases List.mem_append.mp hmem with hold | hnew
      · exact absurd hold (halone i resp)
      · cases List.mem_singleton.mp hnew
        exact ⟨rfl, before, rfl⟩
    | error => exact absurd hmem (h.alone i resp)
  | unwrapped | allDisabled => exact h.elim

theorem returned_error_iff (h : Inv addrs events s) :
    (∃ e, s.progress = .returned (.error e)) ↔ ∀ i < addrs.length, ∃ e, .completed i (.error e) ∈ events := by
  simp only [← mem_failed]
  obtain ⟨launched, progress⟩ := s
  cases progress with
  | direct =>
    obtain ⟨hlen, -, rfl⟩ := h
    refine iff_of_false (by rintro ⟨e, he⟩; cases he) fun hall => ?_
    exact List.not_mem_nil (hall 0 (by omega))
  | select a =>
    obtain ⟨hracing, henabled⟩ := h
    refine iff_of_false (by rintro ⟨e, he⟩; cases he) fun hall => ?_
    rcases henabled with hnext | hstagger
    · obtain ⟨f, hf⟩ := List.exists_mem_of_ne_nil _ hnext
      obtain ⟨hlt, hnot⟩ := hracing.in_flight (List.mem_map_of_mem hf)
      exact hnot (hall f.2 hlt)
    · -- the first address that is left would have to be one of the launched
      obtain ⟨f, hf⟩ := List.exists_mem_of_ne_nil _ hstagger
      have hleft : f.2 ∈ a.pending.map Prod.snd := List.mem_map_of_mem hf
      have hlt : f.2 < addrs.length := by
        rw [← mem_places, ← hracing.order, List.map_append]
        exact List.mem_append_right _ hleft
      have hlaunched := hracing.accounted.mem_iff.mp (List.mem_append_right _ (hall f.2 hlt))
      exact List.disjoint_of_nodup_append hracing.nodup.2 hlaunched hleft
  | returned result =>
    cases result with
    | ok resp =>
      obtain ⟨-, before, i, rfl, -, hlt, hnot⟩ := h
      refine iff_of_false (by rintro ⟨e, he⟩; cases he) fun hall => hnot ?_
      have hfailed := hall i hlt
      rwa [failed_succeeded] at hfailed
    | error e =>
      refine iff_of_true ⟨e, rfl⟩ fun i hlt => ?_
      rw [h.accounted.mem_iff, show launched = addrs.zipIdx from h.order, mem_places]
      exact hlt
  | unwrapped | allDisabled => exact h.elim

theorem exists_possible (h : Inv addrs events s) {a : Attempts} (hselect : s.progress = .select a) :
    ∃ event, Possible s event := by
  obtain ⟨launched, progress⟩ := s
  cases hselect
  rcases h.2 with hnext | hstagger
  · obtain ⟨f, hf⟩ := List.exists_mem_of_ne_nil _ hnext
    exact ⟨.completed f.2 (.error a.lastErr), hnext, List.mem_map_of_mem hf⟩
  · exact ⟨.stagger, hstagger⟩

end

/-- For every order of completions and timer firings: the requests are launched in the order of the list, each
at most once; the first success ends the call with its response, and nothing else gives a response; an error
is returned just when all requests have failed, and then all were launched; and the `select!` always has an
enabled branch. -/
theorem send_request_any_tries_all (addrs : List SocketAddr) (hne : addrs ≠ []) (events : List Wake)
    (hpossible : Meets step Possible (start addrs) events) :
    let s := run step (start addrs) events
    s.launched <+: addrs.zipIdx ∧
    (∀ i resp, .completed i (.ok resp) ∈ events →
      s.progress = .returned (.ok resp) ∧ ∃ before, events = before ++ [.completed i (.ok resp)]) ∧
    (∀ resp, s.progress = .returned (.ok resp) → ∃ i, .completed i (.ok resp) ∈ events) ∧
    ((∃ e, s.progress = .returned (.error e)) ↔ ∀ i < addrs.length, ∃ e, .completed i (.error e) ∈ events) ∧
    ((∃ e, s.progress = .returned (.error e)) → s.launched = addrs.zipIdx) ∧
    s.progress ≠ .unwrapped ∧ s.progress ≠ .allDisabled := by
  intro s
  have h : Inv addrs events s := inv_run hne hpossible
  refine ⟨launched_in_order h, fun i resp hmem => returned_ok h hmem, fun resp hresp => ?_, returned_error_iff h,
    ?_, ?_, ?_⟩
  all_goals unfold Inv at h
  · rw [hresp] at h
    obtain ⟨-, before, i, rfl, -⟩ := h
    exact ⟨i, List.mem_append_right _ (List.mem_singleton_self _)⟩
  · rintro ⟨e, he⟩
    rw [he] at h
    exact h.order
  · intro hunwrapped
    rwa [hunwrapped] at h
  · intro hdisabled
    rwa [hdisabled] at h

def pong : Message := ⟨1, .fill 2, .fill 2, ⟨0, 0⟩, .pingResponse none, [], false, 1⟩

/-- The first request fails before the timer fires, the last one succeeds while the second is in flight. -/
theorem send_request_any_tries_all_three :
    let addrs := [.v4 10 0 0 1 4433, .v4 10 0 0 2 4433, .v4 10 0 0 3 4433]
    let events := [.completed 0 (.error (.network "refused")), .stagger, .stagger, .completed 2 (.ok pong)]
    (run step (start addrs) events).progress = .returned (.ok pong) := by
  intro addrs events
  have hpossible : Meets step Possible (start addrs) events :=
    ⟨⟨List.cons_ne_nil _ _, by decide⟩, List.cons_ne_nil _ _, List.cons_ne_nil _ _,
      ⟨List.cons_ne_nil _ _, by decide⟩, trivial⟩
  exact ((send_request_any_tries_all addrs (by decide) events hpossible).2.1 2 pong (by simp [events])).1

end TesserasDht.Race
