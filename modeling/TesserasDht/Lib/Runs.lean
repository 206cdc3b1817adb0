import Mathlib.Data.List.Basic

/-!
# Runs of a step function

A step function is total: an action that a state does not allow leaves the state alone. So every
list of actions is a run, and a statement about every list of actions is one about every
interleaving.
-/

namespace Lib.Runs

variable {σ α : Type}

/-- The state after a list of actions. -/
def run (step : σ → α → σ) (s : σ) (as : List α) : σ := as.foldl step s

/-- Each action meets `ok` in the state where it is taken. -/
def Meets (step : σ → α → σ) (ok : σ → α → Prop) : σ → List α → Prop
  | _, [] => True
  | s, a :: as => ok s a ∧ Meets step ok (step s a) as

section

variable {step : σ → α → σ} {ok : σ → α → Prop}

instance Meets.decidable [∀ s a, Decidable (ok s a)] :
    ∀ (s : σ) (as : List α), Decidable (Meets step ok s as)
  | _, [] => inferInstanceAs (Decidable True)
  | s, a :: as =>
    have := Meets.decidable (step s a) as
    inferInstanceAs (Decidable (ok s a ∧ Meets step ok (step s a) as))

@[simp] theorem run_nil (s : σ) : run step s [] = s := rfl

@[simp] theorem run_cons (s : σ) (a : α) (as : List α) :
    run step s (a :: as) = run step (step s a) as := rfl

theorem run_append (s : σ) (as bs : List α) :
    run step s (as ++ bs) = run step (run step s as) bs := by
  simp [run]

/-- Some actions lead from one state to the other. -/
def Reaches (step : σ → α → σ) (s s' : σ) : Prop := ∃ as, run step s as = s'

theorem Reaches.refl (s : σ) : Reaches step s s := ⟨[], rfl⟩

theorem Reaches.trans {s₁ s₂ s₃ : σ} (h : Reaches step s₁ s₂) (h' : Reaches step s₂ s₃) : Reaches step s₁ s₃ := by
  obtain ⟨as, rfl⟩ := h
  obtain ⟨bs, rfl⟩ := h'
  exact ⟨as ++ bs, run_append s₁ as bs⟩

theorem Reaches.single {s s' : σ} {a : α} (h : step s a = s') : Reaches step s s' := ⟨[a], h⟩

theorem meets_append (s : σ) (as bs : List α) :
    Meets step ok s (as ++ bs) ↔ Meets step ok s as ∧ Meets step ok (run step s as) bs := by
  induction as generalizing s with
  | nil => simp [Meets]
  | cons a as ih => simp [Meets, ih, and_assoc]

theorem meets_of_forall (h : ∀ s a, ok s a) (s : σ) (as : List α) : Meets step ok s as := by
  induction as generalizing s with
  | nil => exact trivial
  | cons a as ih => exact ⟨h s a, ih (step s a)⟩

theorem Meets.mono {ok' : σ → α → Prop} {s : σ} {as : List α} (h : Meets step ok s as)
    (hok : ∀ s a, ok s a → ok' s a) : Meets step ok' s as := by
  induction as generalizing s with
  | nil => exact trivial
  | cons a as ih => exact ⟨hok s a h.1, ih h.2⟩

/-- A step of a run may also use that its action is one of the run. -/
theorem meets_mem {s : σ} {as : List α} (h : Meets step ok s as) :
    Meets step (fun s a => ok s a ∧ a ∈ as) s as := by
  have hsub : ∀ bs s, bs ⊆ as → Meets step ok s bs →
      Meets step (fun s a => ok s a ∧ a ∈ as) s bs := by
    intro bs
    induction bs with
    | nil => exact fun _ _ _ => trivial
    | cons b bs ih =>
      intro s hbs hok
      rw [List.cons_subset] at hbs
      exact ⟨⟨hok.1, hbs.1⟩, ih _ hbs.2 hok.2⟩
  exact hsub as s (List.Subset.refl as) h

/-- The invariant rule: what each step that meets `ok` keeps, a whole run keeps. -/
theorem run_inv {I : σ → Prop} (hstep : ∀ s a, I s → ok s a → I (step s a))
    {s : σ} (h : I s) {as : List α} (hok : Meets step ok s as) : I (run step s as) := by
  induction as generalizing s with
  | nil => exact h
  | cons a as ih => exact ih (hstep s a h hok.1) hok.2

/-- The invariant rule when the invariant also speaks of the actions so far. -/
theorem run_history {I : List α → σ → Prop}
    (hstep : ∀ before s a, I before s → ok s a → I (before ++ [a]) (step s a))
    {before : List α} {s : σ} (h : I before s) {as : List α} (hok : Meets step ok s as) :
    I (before ++ as) (run step s as) := by
  induction as generalizing before s with
  | nil => rwa [List.append_nil]
  | cons a as ih =>
    have hrest := ih (hstep before s a h hok.1) hok.2
    rwa [List.append_assoc] at hrest

/-- The rule for an exact condition: if a step keeps `I` just when it meets `ok`, then `I` holds all
along a run just when the run meets `ok`. `J` and `pre` are what holds and is asked for anyway. -/
theorem run_inv_iff {I J : σ → Prop} {pre : σ → α → Prop} (hJ : ∀ s a, J s → pre s a → J (step s a))
    (hI : ∀ s a, J s → pre s a → I s → (I (step s a) ↔ ok s a)) {s : σ} (hj : J s) (hi : I s)
    {as : List α} (hpre : Meets step pre s as) :
    (∀ n, I (run step s (as.take n))) ↔ Meets step ok s as := by
  induction as generalizing s with
  | nil =>
    refine ⟨fun _ => trivial, fun _ n => ?_⟩
    rw [List.take_nil]
    exact hi
  | cons a as ih =>
    obtain ⟨ha, has⟩ := hpre
    constructor
    · intro h
      have hstep : I (step s a) := h 1
      exact ⟨(hI s a hj ha hi).mp hstep, (ih (hJ s a hj ha) hstep has).mp fun n => h (n + 1)⟩
    · rintro ⟨hok, hrest⟩ n
      have hstep := (hI s a hj ha hi).mpr hok
      cases n with
      | zero => exact hi
      | succ n => exact (ih (hJ s a hj ha) hstep has).mpr hrest n

end

end Lib.Runs
