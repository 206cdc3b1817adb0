import TesserasDht.Lib.Runs

/-!
# Simulation

Two step functions with answers. If a relation between their states is kept by each step, and the answers
are the same, then no run can tell them apart.
-/

namespace Lib.Runs

variable {σ τ α ρ : Type}

/-- The answers of a run. -/
def answers (step : σ → α → ρ × σ) : σ → List α → List ρ
  | _, [] => []
  | s, a :: as => (step s a).1 :: answers step (step s a).2 as

section

variable {step : σ → α → ρ × σ} {step' : τ → α → ρ × τ} {R : σ → τ → Prop} {ok : σ → α → Prop}

theorem simulates (hstep : ∀ s t a, R s t → ok s a → (step s a).1 = (step' t a).1 ∧ R (step s a).2 (step' t a).2)
    {s : σ} {t : τ} (h : R s t) {as : List α} (hok : Meets (fun s a => (step s a).2) ok s as) :
    answers step s as = answers step' t as ∧
      R (run (fun s a => (step s a).2) s as) (run (fun t a => (step' t a).2) t as) := by
  induction as generalizing s t with
  | nil => exact ⟨rfl, h⟩
  | cons a as ih =>
    obtain ⟨hanswer, hR⟩ := hstep s t a h hok.1
    obtain ⟨hanswers, hrun⟩ := ih hR hok.2
    exact ⟨by rw [answers, answers, hanswer, hanswers], hrun⟩

end

end Lib.Runs
