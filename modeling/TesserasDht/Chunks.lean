import TesserasDht.Lib.Runs
import TesserasDht.Lib.Lists
import TesserasDht.Code.ChunkStore

/-! # Threads of the chunk store -/

open Lib.Runs Lib.Files

namespace TesserasDht.ChunkStore

section

variable {sha256 : Bytes → Hash} {b : Build}

/-- A call starts at its first access to the store, or a `put` is refused at once. -/
theorem start_cases (sha256 : Bytes → Hash) (c : Call) :
    (∃ e, Pc.start sha256 c = .done c (.put (fail e))) ∨
    (∃ data, c = .put (sha256 data) data ∧ Pc.start sha256 c = .putExists (sha256 data) data) ∨
    (∃ h, c = .get h ∧ Pc.start sha256 c = .getExists h) ∨
    (∃ h, c = .delete h ∧ Pc.start sha256 c = .deleteExists h) := by
  cases c with
  | put h data =>
    simp only [Pc.start]
    split
    · exact Or.inl ⟨_, rfl⟩
    · split
      · exact Or.inl ⟨_, rfl⟩
      next hhash =>
        obtain rfl : sha256 data = h := not_not.mp hhash
        exact Or.inr (Or.inl ⟨data, rfl, rfl⟩)
  | get h => exact Or.inr (Or.inr (Or.inl ⟨h, rfl, rfl⟩))
  | delete h => exact Or.inr (Or.inr (Or.inr ⟨h, rfl, rfl⟩))

theorem advance_maxStorage (s : ChunkStore) (pc : Pc) :
    (advance sha256 b s pc).1.maxStorage = s.maxStorage := by
  cases pc with
  | deleteUnlink h len =>
    simp only [advance]
    split <;> rfl
  | _ => rfl

/-- What every new call and every step of a thread keeps, every action keeps. -/
theorem step_keeps {I : System → Prop} (ok : System → Action → Prop)
    (hcall : ∀ s c, I s → ok s (.call c) → I { s with threads := s.threads ++ [Pc.start sha256 c] })
    (hrun : ∀ s i pc, I s → s.threads[i]? = some pc → ok s (.run i) →
      I ⟨(advance sha256 b s.store pc).1, s.threads.set i (advance sha256 b s.store pc).2⟩)
    (s : System) (a : Action) (h : I s) (ha : ok s a) : I (step sha256 b s a) := by
  cases a with
  | call c => exact hcall s c h ha
  | run i =>
    simp only [step]
    split
    next => exact h
    next pc hpc => exact hrun s i pc h hpc ha

/-- A store that was just opened. -/
def System.new (maxStorage : UInt64) (dir : Dir Hash UInt8) : System :=
  ⟨ChunkStore.new maxStorage.toNat dir, []⟩

def Pc.isDone : Pc → Bool
  | .done _ _ => true
  | _ => false

/-- Nobody is in the middle of a call. -/
def quiet (s : System) : Bool := s.threads.all Pc.isDone

/-- The file that a thread has open for writing. -/
def Pc.handle : Pc → Option Nat
  | .putWrite _ _ id => some id
  | _ => none

end

/-! ## A call alone

A thread that meets nobody does what the functions without threads do. -/

section

variable {sha256 : Bytes → Hash} {b : Build}

/-- Thread `i` takes `n` steps in a row. -/
def Action.runs (i n : Nat) : List Action := List.replicate n (.run i)

theorem step_call_alone (s : ChunkStore) (c : Call) :
    step sha256 b ⟨s, []⟩ (.call c) = ⟨s, [Pc.start sha256 c]⟩ := rfl

theorem run_runs_succ (s : ChunkStore) (pc : Pc) (n : Nat) :
    run (step sha256 b) ⟨s, [pc]⟩ (Action.runs 0 (n + 1)) =
      run (step sha256 b) ⟨(advance sha256 b s pc).1, [(advance sha256 b s pc).2]⟩
        (Action.runs 0 n) := rfl

theorem run_runs_done (s : ChunkStore) (c : Call) (r : Reply) (n : Nat) :
    run (step sha256 b) ⟨s, [.done c r]⟩ (Action.runs 0 n) = ⟨s, [.done c r]⟩ := by
  induction n with
  | zero => rfl
  | succ n ih => exact ih

theorem put_alone (s : ChunkStore) (h : Hash) (data : Bytes) :
    run (step sha256 b) ⟨s, []⟩ (.call (.put h data) :: Action.runs 0 5) =
      ⟨(putSync sha256 b .none s h data).2,
        [.done (.put h data) (.put (putSync sha256 b .none s h data).1)]⟩ := by
  rw [run_cons, step_call_alone]
  unfold putSync Pc.start
  dsimp only
  split
  · rw [run_runs_done]
  · split
    · rw [run_runs_done]
    · rw [run_runs_succ]
      simp only [advance]
      split
      · rw [run_runs_done]
      · rw [run_runs_succ, run_runs_succ]
        simp only [advance]
        cases hsum : b.add s.storageUsed data.length with
        | error e => rw [run_runs_done]
        | ok sum =>
          by_cases hmax : (s.reserve data.length).maxStorage < sum
          · simp only [hmax, if_true]
            rfl
          · simp only [hmax, if_false]
            rfl

theorem get_alone (s : ChunkStore) (h : Hash) :
    run (step sha256 b) ⟨s, []⟩ (.call (.get h) :: Action.runs 0 3) =
      ⟨(getSync sha256 .none s h).2, [.done (.get h) (.get (getSync sha256 .none s h).1)]⟩ := by
  rw [run_cons, step_call_alone, run_runs_succ]
  unfold getSync
  cases hf : s.dir.lookup h with
  | none =>
    simp only [Pc.start, advance, ChunkStore.exists, hf, Option.isSome_none, Bool.false_eq_true, if_false]
    rw [run_runs_done]
  | some f =>
    simp only [Pc.start, advance, ChunkStore.exists, hf, Option.isSome_some, if_true]
    rw [run_runs_succ]
    simp only [advance, hf]
    split
    · rfl
    · rw [run_runs_done]
      rfl

theorem delete_alone (s : ChunkStore) (h : Hash) :
    run (step sha256 b) ⟨s, []⟩ (.call (.delete h) :: Action.runs 0 4) =
      ⟨(deleteSync .none s h).2, [.done (.delete h) (.delete (deleteSync .none s h).1)]⟩ := by
  rw [run_cons, step_call_alone, run_runs_succ]
  unfold deleteSync
  cases hf : s.dir.lookup h with
  | none =>
    simp only [Pc.start, advance, ChunkStore.exists, hf, Option.isSome_none, Bool.false_eq_true, if_false]
    rw [run_runs_done]
  | some f =>
    simp only [Pc.start, advance, ChunkStore.exists, hf, Option.isSome_some, if_true]
    rw [run_runs_succ, run_runs_succ]
    simp only [advance, hf]
    rfl

end

/-! ## What a run puts -/

section

variable (sha256 : Bytes → Hash)

/-- The data of the `put` calls with the right hash. -/
def puts (as : List Action) : List Bytes :=
  as.filterMap fun
    | .call (.put h data) => if sha256 data = h then some data else none
    | _ => none

theorem mem_puts {as : List Action} {data : Bytes} (h : .call (.put (sha256 data) data) ∈ as) :
    data ∈ puts sha256 as :=
  List.mem_filterMap.mpr ⟨_, h, if_pos rfl⟩

def CollisionFree (l : List Bytes) : Prop := ∀ x ∈ l, ∀ y ∈ l, sha256 x = sha256 y → x = y

instance (l : List Bytes) : Decidable (CollisionFree sha256 l) :=
  inferInstanceAs (Decidable (∀ x ∈ l, ∀ y ∈ l, sha256 x = sha256 y → x = y))

end

def Call.putOf (data : Bytes) : Call := .put (Sha256.digest data) data

end TesserasDht.ChunkStore
