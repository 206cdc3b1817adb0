import Mathlib.Data.List.Forall2
import TesserasDht.Lib.Runs

/-!
# Tasks that take turns

A task is a tree of operations. Whoever runs it says what an operation does to the state that all
tasks share, and what it returns. Between two operations of a task any other task may run.
-/

open Lib.Runs

namespace Lib.Tasks

/-- A task over the operations `E`. The operation `e` returns an `R e`. -/
inductive Task (E : Type) (R : E → Type) (α : Type)
  | ret (a : α)
  | op (e : E) (k : R e → Task E R α)

section

variable {E : Type} {R : E → Type} {α β : Type}

def Task.bind : Task E R α → (α → Task E R β) → Task E R β
  | .ret a, f => f a
  | .op e k, f => .op e fun r => (k r).bind f

instance : Monad (Task E R) where
  pure := .ret
  bind := Task.bind

def perform (e : E) : Task E R (R e) := .op e .ret

@[simp] theorem ret_bind (a : α) (f : α → Task E R β) : (Task.ret a : Task E R α) >>= f = f a := rfl

@[simp] theorem pure_bind (a : α) (f : α → Task E R β) : (pure a : Task E R α) >>= f = f a := rfl

@[simp] theorem op_bind (e : E) (k : R e → Task E R α) (f : α → Task E R β) :
    Task.op e k >>= f = .op e fun r => k r >>= f := rfl

@[simp] theorem perform_bind (e : E) (f : R e → Task E R β) : perform e >>= f = .op e f := rfl

theorem Task.bind_assoc {γ : Type} (t : Task E R α) (f : α → Task E R β) (g : β → Task E R γ) :
    t >>= f >>= g = t >>= fun a => f a >>= g := by
  induction t with
  | ret a => rfl
  | op e k ih => exact congrArg (Task.op e) (funext ih)

end

/-! ## Contracts -/

/-- What a task owes and what it may rely on. The task has a ghost state `γ`: in `g` it performs only
operations that meet `owes g`, and the answer `r` to `e`, which meets `gets g e r`, takes it to
`next g e r`. -/
structure Contract (γ E : Type) (R : E → Type) where
  owes : γ → E → Prop
  gets : γ → (e : E) → R e → Prop
  next : γ → (e : E) → R e → γ

section

variable {γ E : Type} {R : E → Type} {α β : Type}

/-- The task keeps the contract from `g` on, and ends with a result that meets `Q`. -/
def Keeps (c : Contract γ E R) (Q : γ → α → Prop) : γ → Task E R α → Prop
  | g, .ret a => Q g a
  | g, .op e k => c.owes g e ∧ ∀ r, c.gets g e r → Keeps c Q (c.next g e r) (k r)

variable {c : Contract γ E R}

theorem Keeps.mono {Q Q' : γ → α → Prop} (hQ : ∀ g a, Q g a → Q' g a) {g : γ} {t : Task E R α}
    (h : Keeps c Q g t) : Keeps c Q' g t := by
  induction t generalizing g with
  | ret a => exact hQ g a h
  | op e k ih => exact ⟨h.1, fun r hr => ih r (h.2 r hr)⟩

theorem Keeps.perform {Q : γ → β → Prop} {g : γ} {e : E} {f : R e → Task E R β} (h : c.owes g e)
    (hf : ∀ r, c.gets g e r → Keeps c Q (c.next g e r) (f r)) : Keeps c Q g (perform e >>= f) :=
  ⟨h, hf⟩

theorem Keeps.bind {Q : γ → α → Prop} {Q' : γ → β → Prop} {g : γ} {t : Task E R α}
    {f : α → Task E R β} (h : Keeps c Q g t) (hf : ∀ g a, Q g a → Keeps c Q' g (f a)) :
    Keeps c Q' g (t >>= f) := by
  induction t generalizing g with
  | ret a => exact hf g a h
  | op e k ih => exact ⟨h.1, fun r hr => ih r (h.2 r hr)⟩

/-- A task that keeps a contract also keeps one with more ghost state, of which `I` holds all along. -/
theorem Keeps.lift {δ : Type} {c' : Contract (γ × δ) E R} {I : δ → Prop}
    (howes : ∀ g d e, c.owes g e → I d → c'.owes (g, d) e)
    (hgets : ∀ g d e r, c'.gets (g, d) e r → c.gets g e r)
    (hnext : ∀ g d e r, c.owes g e → I d →
      (c'.next (g, d) e r).1 = c.next g e r ∧ I (c'.next (g, d) e r).2)
    {Q : γ → α → Prop} {g : γ} {d : δ} {t : Task E R α} (h : Keeps c Q g t) (hd : I d) :
    Keeps c' (fun p a => Q p.1 a ∧ I p.2) (g, d) t := by
  induction t generalizing g d with
  | ret a => exact ⟨h, hd⟩
  | op e k ih =>
    refine ⟨howes g d e h.1 hd, fun r hr => ?_⟩
    obtain ⟨hfst, hsnd⟩ := hnext g d e r h.1 hd
    have hk := ih r (h.2 r (hgets g d e r hr)) hsnd
    rw [← hfst] at hk
    exact hk

end

/-! ## The operations of a task -/

section

variable {E : Type} {R : E → Type} {α β : Type} {P : E → Prop}

/-- The task performs operations that meet `P` and no others. -/
def Performs (P : E → Prop) (t : Task E R α) : Prop :=
  Keeps (⟨fun _ => P, fun _ _ _ => True, fun _ _ _ => ()⟩ : Contract Unit E R) (fun _ _ => True) () t

@[simp] theorem performs_pure (a : α) : Performs P (pure a : Task E R α) := trivial

@[simp] theorem performs_op (e : E) (k : R e → Task E R α) :
    Performs P (.op e k) ↔ P e ∧ ∀ r, Performs P (k r) := by
  simp [Performs, Keeps]

@[simp] theorem performs_perform (e : E) : Performs P (perform e : Task E R (R e)) ↔ P e := by
  simp [perform, Performs, Keeps]

theorem Performs.bind {t : Task E R α} {f : α → Task E R β} (h : Performs P t)
    (hf : ∀ a, Performs P (f a)) : Performs P (t >>= f) :=
  Keeps.bind h fun _ a _ => hf a

theorem Performs.mono {P' : E → Prop} (hP : ∀ e, P e → P' e) {t : Task E R α} (h : Performs P t) :
    Performs P' t := by
  induction t with
  | ret a => exact trivial
  | op e k ih =>
    rw [performs_op] at h ⊢
    exact ⟨hP e h.1, fun r => ih r (h.2 r)⟩

/-- A task of which no operation moves the ghost state. -/
theorem Performs.keeps {γ : Type} {c : Contract γ E R} {g : γ} (howes : ∀ e, P e → c.owes g e)
    (hnext : ∀ e r, P e → c.next g e r = g) {t : Task E R α} (h : Performs P t) :
    Keeps c (fun g' _ => g' = g) g t := by
  induction t with
  | ret a => exact rfl
  | op e k ih =>
    rw [performs_op] at h
    refine ⟨howes e h.1, fun r _ => ?_⟩
    rw [hnext e r h.1]
    exact ih r (h.2 r)

end

/-! ## The results of a task -/

section

variable {E : Type} {R : E → Type} {α β : Type}

/-- Whatever the operations return, the task ends with a result that meets `Q`. -/
def Ensures (Q : α → Prop) : Task E R α → Prop
  | .ret a => Q a
  | .op _ k => ∀ r, Ensures Q (k r)

@[simp] theorem ensures_pure {Q : α → Prop} (a : α) : Ensures Q (pure a : Task E R α) ↔ Q a := Iff.rfl

@[simp] theorem ensures_op {Q : α → Prop} (e : E) (k : R e → Task E R α) :
    Ensures Q (.op e k) ↔ ∀ r, Ensures Q (k r) := Iff.rfl

theorem Ensures.mono {Q Q' : α → Prop} (hQ : ∀ a, Q a → Q' a) {t : Task E R α} (h : Ensures Q t) :
    Ensures Q' t := by
  induction t with
  | ret a => exact hQ a h
  | op e k ih => exact fun r => ih r (h r)

theorem Ensures.bind {Q : α → Prop} {Q' : β → Prop} {t : Task E R α} {f : α → Task E R β}
    (h : Ensures Q t) (hf : ∀ a, Q a → Ensures Q' (f a)) : Ensures Q' (t >>= f) := by
  induction t with
  | ret a => exact hf a h
  | op e k ih => exact fun r => ih r (h r)

theorem ensures_true (t : Task E R α) : Ensures (fun _ => True) t := by
  induction t with
  | ret a => trivial
  | op e k ih => exact ih

end

/-! ## A task that runs alone -/

section

variable {E σ ι : Type} {R : E → Type} {α β γ : Type}

/-- The result and the state at the end. The `n`-th operation gets the input `n` from outside. -/
def exec (apply : (e : E) → ι → σ → R e × σ) (inputs : Nat → ι) : Nat → Task E R α → σ → α × σ
  | _, .ret a, s => (a, s)
  | n, .op e k, s => exec apply inputs (n + 1) (k (apply e (inputs n) s).1) (apply e (inputs n) s).2

@[simp] theorem exec_pure (apply : (e : E) → ι → σ → R e × σ) (inputs : Nat → ι) (n : Nat) (a : α) (s : σ) :
    exec apply inputs n (pure a) s = (a, s) := rfl

/-- The number of the first input that is left. -/
def inputsLeft (apply : (e : E) → ι → σ → R e × σ) (inputs : Nat → ι) : Nat → Task E R α → σ → Nat
  | n, .ret _, _ => n
  | n, .op e k, s =>
    inputsLeft apply inputs (n + 1) (k (apply e (inputs n) s).1) (apply e (inputs n) s).2

theorem exec_bind (apply : (e : E) → ι → σ → R e × σ) (inputs : Nat → ι) (n : Nat) (t : Task E R α)
    (f : α → Task E R β) (s : σ) :
    exec apply inputs n (t >>= f) s = exec apply inputs (inputsLeft apply inputs n t s)
      (f (exec apply inputs n t s).1) (exec apply inputs n t s).2 := by
  induction t generalizing n s with
  | ret a => rfl
  | op e k ih => exact ih _ (n + 1) _

/-- What the answers do not matter for holds in every run. -/
theorem exec_ensures {apply : (e : E) → ι → σ → R e × σ} {inputs : Nat → ι} {Q : α → Prop}
    {t : Task E R α} (h : Ensures Q t) (n : Nat) (s : σ) : Q (exec apply inputs n t s).1 := by
  induction t generalizing n s with
  | ret a => exact h
  | op e k ih => exact ih _ (h _) (n + 1) _

/-- What each operation of a task keeps, the task keeps. -/
theorem exec_performs {P : E → Prop} {apply : (e : E) → ι → σ → R e × σ} {inputs : Nat → ι}
    {I : σ → Prop} (hstep : ∀ e n s, P e → I s → I (apply e (inputs n) s).2) {t : Task E R α}
    (ht : Performs P t) {s : σ} (hs : I s) (n : Nat) : I (exec apply inputs n t s).2 := by
  induction t generalizing s n with
  | ret a => exact hs
  | op e k ih =>
    rw [performs_op] at ht
    exact ih _ (ht.2 _) (hstep e n s ht.1 hs) (n + 1)

/-- What each operation that a contract allows keeps, a task that keeps the contract does. -/
theorem exec_keeps {c : Contract γ E R} {apply : (e : E) → ι → σ → R e × σ} {inputs : Nat → ι} {J : γ → σ → Prop}
    (hstep : ∀ g e n s, c.owes g e → J g s → c.gets g e (apply e (inputs n) s).1 ∧
      J (c.next g e (apply e (inputs n) s).1) (apply e (inputs n) s).2)
    {Q : γ → α → Prop} {g : γ} {t : Task E R α} (ht : Keeps c Q g t) {s : σ} (hs : J g s) (n : Nat) :
    ∃ g', J g' (exec apply inputs n t s).2 ∧ Q g' (exec apply inputs n t s).1 := by
  induction t generalizing g s n with
  | ret a => exact ⟨g, hs, ht⟩
  | op e k ih =>
    obtain ⟨hgets, hJ⟩ := hstep g e n s ht.1 hs
    exact ih _ (ht.2 _ hgets) hJ (n + 1)

end

/-! ## Tasks that run side by side -/

section

variable {α β : Type} {r : α → β → Prop} {l : List α} {m : List β}

theorem exists_getElem_of_forall₂ (h : List.Forall₂ r l m) {i : Nat} {a : α} (hi : l[i]? = some a) :
    ∃ b, m[i]? = some b ∧ r a b := by
  induction h generalizing i with
  | nil => simp at hi
  | cons hab _ ih =>
    cases i with
    | zero =>
      cases hi
      exact ⟨_, rfl, hab⟩
    | succ i => exact ih (by simpa using hi)

theorem forall₂_set (h : List.Forall₂ r l m) {i : Nat} {a : α} {b : β} (hab : r a b) :
    List.Forall₂ r (l.set i a) (m.set i b) := by
  induction h generalizing i with
  | nil => exact .nil
  | cons hcd hrest ih =>
    cases i with
    | zero => exact .cons hab hrest
    | succ i => exact .cons hcd ih

end

/-- `apply` says what an operation of a task with the label `τ` does, and `start` which tasks may
begin. -/
structure System (σ τ ι χ E : Type) (R : E → Type) where
  apply : τ → (e : E) → ι → σ → R e × σ
  start : χ → σ → Option (σ × τ × Task E R Unit)

structure Pool (σ τ E : Type) (R : E → Type) where
  state : σ
  tasks : List (τ × Task E R Unit)

inductive Action (χ ι : Type)
  | start (x : χ)
  | run (i : Nat) (input : ι)

section

variable {σ τ ι χ E γ : Type} {R : E → Type}

def System.step (sys : System σ τ ι χ E R) (p : Pool σ τ E R) : Action χ ι → Pool σ τ E R
  | .start x => match sys.start x p.state with
    | none => p
    | some (s, t) => ⟨s, p.tasks ++ [t]⟩
  | .run i input => match p.tasks[i]? with
    | some (tag, .op e k) =>
      let (r, s) := sys.apply tag e input p.state
      ⟨s, p.tasks.set i (tag, k r)⟩
    | _ => p

/-- A condition on what begins and on the operations that are performed. -/
def Allows (okStart : χ → σ → Prop) (okRun : τ → E → ι → σ → Prop) (p : Pool σ τ E R) :
    Action χ ι → Prop
  | .start x => okStart x p.state
  | .run i input => match p.tasks[i]? with
    | some (tag, .op e _) => okRun tag e input p.state
    | _ => True

instance (okStart : χ → σ → Prop) (okRun : τ → E → ι → σ → Prop) [∀ x s, Decidable (okStart x s)]
    [∀ tag e input s, Decidable (okRun tag e input s)] (p : Pool σ τ E R) :
    (a : Action χ ι) → Decidable (Allows okStart okRun p a)
  | .start x => inferInstanceAs (Decidable (okStart x p.state))
  | .run i input => match h : p.tasks[i]? with
    | some (tag, .op e _) =>
      decidable_of_iff (okRun tag e input p.state) (by simp only [Allows, h])
    | some (_, .ret _) => isTrue (by simp only [Allows, h])
    | none => isTrue (by simp only [Allows, h])

theorem allows_true (p : Pool σ τ E R) (a : Action χ ι) :
    Allows (fun _ _ => True) (fun _ _ _ _ => True) p a := by
  cases a with
  | start x => exact trivial
  | run i input =>
    dsimp only [Allows]
    split
    · exact trivial
    · exact trivial

/-- The tasks have the labels of `gs`, and each keeps its contract from its ghost state on. -/
def Kept (c : τ → Contract γ E R) (p : Pool σ τ E R) (gs : List (τ × γ)) : Prop :=
  List.Forall₂ (fun t g => t.1 = g.1 ∧ Keeps (c g.1) (fun _ _ => True) g.2 t.2) p.tasks gs

section

variable {c : τ → Contract γ E R} {sys : System σ τ ι χ E R} {J : σ → List (τ × γ) → Prop}
  {okStart : χ → σ → Prop} {okRun : τ → E → ι → σ → Prop}
  (hstart : ∀ x s s' tag t gs, okStart x s → J s gs → sys.start x s = some (s', tag, t) →
    ∃ g, Keeps (c tag) (fun _ _ => True) g t ∧ J s' (gs ++ [(tag, g)]))
  (hrun : ∀ tag g e input s gs i, okRun tag e input s → (c tag).owes g e → gs[i]? = some (tag, g) →
    J s gs → (c tag).gets g e (sys.apply tag e input s).1 ∧
      J (sys.apply tag e input s).2 (gs.set i (tag, (c tag).next g e (sys.apply tag e input s).1)))

include hstart hrun

theorem step_kept (p : Pool σ τ E R) (a : Action χ ι) (h : ∃ gs, Kept c p gs ∧ J p.state gs)
    (hok : Allows okStart okRun p a) :
    ∃ gs, Kept c (sys.step p a) gs ∧ J (sys.step p a).state gs := by
  obtain ⟨gs, hkept, hJ⟩ := h
  cases a with
  | start x =>
    cases hx : sys.start x p.state with
    | none =>
      simp only [System.step, hx]
      exact ⟨gs, hkept, hJ⟩
    | some new =>
      obtain ⟨s', tag, t⟩ := new
      obtain ⟨g, hg, hJ'⟩ := hstart x _ s' tag t gs hok hJ hx
      simp only [System.step, hx]
      exact ⟨gs ++ [(tag, g)], List.rel_append hkept (.cons ⟨rfl, hg⟩ .nil), hJ'⟩
  | run i input =>
    cases hi : p.tasks[i]? with
    | none =>
      simp only [System.step, hi]
      exact ⟨gs, hkept, hJ⟩
    | some t =>
      obtain ⟨tag, t⟩ := t
      cases t with
      | ret a =>
        simp only [System.step, hi]
        exact ⟨gs, hkept, hJ⟩
      | op e k =>
        obtain ⟨⟨tag', g⟩, hgi, rfl, howes, hnext⟩ := exists_getElem_of_forall₂ hkept hi
        simp only [Allows, hi] at hok
        obtain ⟨hgets, hJ'⟩ := hrun tag g e input _ gs i hok howes hgi hJ
        simp only [System.step, hi]
        exact ⟨_, forall₂_set hkept ⟨rfl, hnext _ hgets⟩, hJ'⟩

/-- The rule for tasks that take turns: a relation between the ghost states and the shared state that
each start and each operation keeps, holds after every run. -/
theorem run_kept {p : Pool σ τ E R} (h : ∃ gs, Kept c p gs ∧ J p.state gs)
    {as : List (Action χ ι)} (hok : Meets sys.step (Allows okStart okRun) p as) :
    ∃ gs, Kept c (run sys.step p as) gs ∧ J (run sys.step p as).state gs :=
  run_inv (step_kept hstart hrun) h hok

end

/-! ## A log -/

section

variable {ω : Type} (sys : System σ τ ι χ E R) (record : τ → (e : E) → R e → σ → List ω)

/-- The system that also writes a log. What an operation adds to it depends on the answer and on the
state that the operation met. -/
def System.logged : System (σ × List ω) τ ι χ E R where
  apply tag e input s :=
    let (r, s') := sys.apply tag e input s.1
    (r, s', s.2 ++ record tag e r s.1)
  start x s := (sys.start x s.1).map fun new => ((new.1, s.2), new.2)

def Pool.forget (p : Pool (σ × List ω) τ E R) : Pool σ τ E R := ⟨p.state.1, p.tasks⟩

theorem step_logged (p : Pool (σ × List ω) τ E R) (a : Action χ ι) :
    ((sys.logged record).step p a).forget = sys.step p.forget a := by
  cases a with
  | start x =>
    simp only [System.step, System.logged, Pool.forget]
    cases sys.start x p.state.1 with
    | none => rfl
    | some new => rfl
  | run i input =>
    simp only [System.step, Pool.forget]
    split
    · rfl
    · rfl

theorem run_logged (as : List (Action χ ι)) (p : Pool (σ × List ω) τ E R) :
    (run (sys.logged record).step p as).forget = run sys.step p.forget as := by
  induction as generalizing p with
  | nil => rfl
  | cons a as ih => exact (ih _).trans (by rw [step_logged]; rfl)

end

end

end Lib.Tasks
