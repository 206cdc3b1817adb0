import Mathlib.Data.List.Basic

/-!
# Streaks of failures

What came of the dealings with each `id`, the newest first, next to a counter that is meant to count
the failures since the last success. The counter goes up with each failure that is counted and down to
zero with each reset. It lags behind as long as a success that met a counted failure was not followed by
a reset.
-/

namespace Lib.Streaks

inductive Mark (κ : Type)
  /-- A failure, and whether it was counted. -/
  | failed (id : κ) (counted : Bool)
  | heard (id : κ)
  | reset (id : κ)
  | dropped (id : κ)
deriving DecidableEq

variable {κ : Type} [DecidableEq κ]

/-- What came of the dealings with `id`: `true` for a success. -/
def outcomes (id : κ) : List (Mark κ) → List Bool
  | [] => []
  | .failed i _ :: h => if i = id then false :: outcomes id h else outcomes id h
  | .heard i :: h => if i = id then true :: outcomes id h else outcomes id h
  | _ :: h => outcomes id h

/-- The failures since the last success. -/
def streak (id : κ) : List (Mark κ) → Nat
  | [] => 0
  | .failed i _ :: h => if i = id then streak id h + 1 else streak id h
  | .heard i :: h => if i = id then 0 else streak id h
  | _ :: h => streak id h

/-- The failures that were counted since the last reset. -/
def charged (id : κ) : List (Mark κ) → Nat
  | [] => 0
  | .failed i counted :: h => if i = id ∧ counted then charged id h + 1 else charged id h
  | .reset i :: h => if i = id then 0 else charged id h
  | _ :: h => charged id h

/-- A success met a counted failure, and no reset followed. -/
def stale (id : κ) : List (Mark κ) → Bool
  | [] => false
  | .heard i :: h => (i = id ∧ 0 < charged id h) || stale id h
  | .reset i :: h => i ≠ id && stale id h
  | _ :: h => stale id h

/-- Every one that was dropped had failed at its last `max` dealings. -/
def OnlyFailing (max : Nat) : List (Mark κ) → Prop
  | [] => True
  | .dropped i :: h => (outcomes i h).take max = List.replicate max false ∧ OnlyFailing max h
  | _ :: h => OnlyFailing max h

theorem take_outcomes {id : κ} {h : List (Mark κ)} {n : Nat} (hn : n ≤ streak id h) :
    (outcomes id h).take n = List.replicate n false := by
  induction h generalizing n with
  | nil =>
    rw [Nat.le_zero.mp hn]
    rfl
  | cons m h ih =>
    cases m with
    | failed i counted =>
      unfold streak at hn
      unfold outcomes
      split_ifs at hn ⊢
      · cases n with
        | zero => rfl
        | succ n => rw [List.take_succ_cons, ih (Nat.le_of_succ_le_succ hn), List.replicate_succ]
      · exact ih hn
    | heard i =>
      unfold streak at hn
      unfold outcomes
      split_ifs at hn ⊢
      · rw [Nat.le_zero.mp hn]
        rfl
      · exact ih hn
    | reset i => exact ih hn
    | dropped i => exact ih hn

/-- The counter does not lag behind if it is not stale. -/
theorem charged_le_streak {id : κ} {h : List (Mark κ)} (hfresh : stale id h = false) :
    charged id h ≤ streak id h := by
  induction h with
  | nil => exact Nat.le_refl 0
  | cons m h ih =>
    cases m with
    | failed i counted =>
      have hle := ih hfresh
      by_cases hi : i = id
      · simp only [charged, streak, hi, true_and, if_true]
        split_ifs <;> omega
      · simpa only [charged, streak, hi, false_and, if_false] using hle
    | heard i =>
      simp only [stale, Bool.or_eq_false_iff, decide_eq_false_iff_not] at hfresh
      have hle := ih hfresh.2
      change charged id h ≤ _
      unfold streak
      split_ifs with hi
      · rcases Nat.eq_zero_or_pos (charged id h) with hzero | hpos
        · exact Nat.le_of_eq hzero
        · exact absurd ⟨hi, hpos⟩ hfresh.1
      · exact hle
    | reset i =>
      unfold charged
      split_ifs with hi
      · exact Nat.zero_le _
      · refine ih ?_
        simpa [stale, hi] using hfresh
    | dropped i => exact ih hfresh

/-- The counter of `id` reaches `max` with a failure, and was not stale. -/
theorem take_outcomes_failed {id : κ} {h : List (Mark κ)} {max : Nat} (hfresh : stale id h = false)
    (hmax : max ≤ charged id h + 1) (counted : Bool) :
    (outcomes id (.failed id counted :: h)).take max = List.replicate max false := by
  apply take_outcomes
  have hle := charged_le_streak hfresh
  unfold streak
  rw [if_pos rfl]
  omega

/-! ## Marks that are added -/

section

variable (ids : List κ) (id : κ) (h : List (Mark κ))

@[simp] theorem charged_heard : charged id (ids.map Mark.heard ++ h) = charged id h := by
  induction ids with
  | nil => rfl
  | cons _ _ ih => exact ih

@[simp] theorem charged_dropped : charged id (ids.map Mark.dropped ++ h) = charged id h := by
  induction ids with
  | nil => rfl
  | cons _ _ ih => exact ih

@[simp] theorem outcomes_dropped : outcomes id (ids.map Mark.dropped ++ h) = outcomes id h := by
  induction ids with
  | nil => rfl
  | cons _ _ ih => exact ih

end

section

variable {max : Nat} {ids : List κ} {h : List (Mark κ)}

theorem OnlyFailing.heard (hold : OnlyFailing max h) (ids : List κ) :
    OnlyFailing max (ids.map Mark.heard ++ h) := by
  induction ids with
  | nil => exact hold
  | cons _ _ ih => exact ih

theorem OnlyFailing.dropped (hold : OnlyFailing max h)
    (hids : ∀ id ∈ ids, (outcomes id h).take max = List.replicate max false) :
    OnlyFailing max (ids.map Mark.dropped ++ h) := by
  induction ids with
  | nil => exact hold
  | cons id ids ih =>
    rw [List.forall_mem_cons] at hids
    have hid := outcomes_dropped ids id h
    exact ⟨(congrArg (List.take max) hid).trans hids.1, ih hids.2⟩

end

theorem OnlyFailing.split {max : Nat} {newer older : List (Mark κ)} {id : κ}
    (h : OnlyFailing max (newer ++ .dropped id :: older)) :
    (outcomes id older).take max = List.replicate max false := by
  induction newer with
  | nil => exact h.1
  | cons m newer ih =>
    cases m with
    | dropped i => exact ih h.2
    | _ => exact ih h

end Lib.Streaks
