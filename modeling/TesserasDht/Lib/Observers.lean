import TesserasDht.Lib.Tasks

/-!
# Observers

An observer sees which tasks begin, and each operation with its input and its answer. It changes
nothing.
-/

open Lib.Runs

namespace Lib.Tasks

structure Observer (σ τ ι χ E : Type) (R : E → Type) (ω : Type) where
  begins : χ → σ → ω → ω
  sees : τ → (e : E) → ι → R e → σ → ω → ω

section

variable {σ τ ι χ E ω : Type} {R : E → Type} (sys : System σ τ ι χ E R) (o : Observer σ τ ι χ E R ω)

def System.observed : System (σ × ω) τ ι χ E R where
  apply tag e input s :=
    let (r, s') := sys.apply tag e input s.1
    (r, s', o.sees tag e input r s.1 s.2)
  start x s := (sys.start x s.1).map fun new => ((new.1, o.begins x s.1 s.2), new.2)

def Pool.unobserved (p : Pool (σ × ω) τ E R) : Pool σ τ E R := ⟨p.state.1, p.tasks⟩

theorem step_observed (p : Pool (σ × ω) τ E R) (a : Action χ ι) :
    ((sys.observed o).step p a).unobserved = sys.step p.unobserved a := by
  cases a with
  | start x =>
    simp only [System.step, System.observed, Pool.unobserved]
    cases sys.start x p.state.1 with
    | none => rfl
    | some new => rfl
  | run i input =>
    simp only [System.step, Pool.unobserved]
    split
    · rfl
    · rfl

theorem run_observed (as : List (Action χ ι)) (p : Pool (σ × ω) τ E R) :
    (run (sys.observed o).step p as).unobserved = run sys.step p.unobserved as := by
  induction as generalizing p with
  | nil => rfl
  | cons a as ih => exact (ih _).trans (by rw [step_observed]; rfl)

end

/-! ## Two contracts at once -/

section

variable {γ E : Type} {R : E → Type} {α : Type} {c : Contract γ E R} {P : E → Prop}

/-- A task that keeps a contract and performs certain operations, owes both. -/
theorem Keeps.and_performs {Q : γ → α → Prop} {g : γ} {t : Task E R α} (h : Keeps c Q g t)
    (hP : Performs P t) : Keeps { c with owes := fun g e => c.owes g e ∧ P e } Q g t := by
  induction t generalizing g with
  | ret a => exact h
  | op e k ih =>
    rw [performs_op] at hP
    exact ⟨⟨h.1, hP.1⟩, fun r hr => ih r (h.2 r hr) (hP.2 r)⟩

end

end Lib.Tasks
