import TesserasDht.Lib.Lists

/-!
# Tables with a primary key

A table is the list of its rows, and `key` is the column that the database keeps unique. A
transaction keeps a copy of the table for the rollback.
-/

open Lib.Lists

namespace Lib.Tables

section

variable {ρ κ : Type} [DecidableEq κ] (key : ρ → κ)

/-- `INSERT OR REPLACE`. -/
def replace (rows : List ρ) (row : ρ) : List ρ := rows.filter (fun r => key r ≠ key row) ++ [row]

def replaceAll (rows new : List ρ) : List ρ := new.foldl (replace key) rows

/-- `DELETE` of the rows whose key is not among `keys`. -/
def retain (keys : List κ) (rows : List ρ) : List ρ := rows.filter fun r => key r ∈ keys

variable {key}

theorem retain_eq_filter {keys : List κ} {p : κ → Bool} (h : ∀ k, p k = true ↔ k ∈ keys) (rows : List ρ) :
    retain key keys rows = rows.filter fun r => p (key r) := by
  refine List.filter_congr ?_
  intro r _
  rw [Bool.eq_iff_iff, decide_eq_true_iff, h]

theorem mem_replace {rows : List ρ} {row x : ρ} :
    x ∈ replace key rows row ↔ x ∈ rows ∧ key x ≠ key row ∨ x = row := by
  simp [replace]

theorem nodup_replace {rows : List ρ} (h : (rows.map key).Nodup) (row : ρ) :
    ((replace key rows row).map key).Nodup := by
  refine nodup_map_concat key _ row (h.sublist (List.filter_sublist.map key)) ?_
  intro r hr
  simpa using (List.mem_filter.mp hr).2

theorem replaceAll_eq (rows new : List ρ) (h : (new.map key).Nodup) :
    replaceAll key rows new = rows.filter (fun r => key r ∉ new.map key) ++ new := by
  induction new generalizing rows with
  | nil => simp [replaceAll]
  | cons row rest ih =>
    obtain ⟨hrow, hrest⟩ := List.nodup_cons.mp h
    have hstep : replaceAll key rows (row :: rest) = replaceAll key (replace key rows row) rest := rfl
    have hkeep : [row].filter (fun r => key r ∉ rest.map key) = [row] := by
      rw [List.filter_singleton, decide_eq_true hrow]
      rfl
    rw [hstep, ih _ hrest, replace, List.filter_append, hkeep, List.filter_filter,
      List.append_assoc, List.singleton_append]
    congr 1
    refine List.filter_congr ?_
    intro r _
    rw [← Bool.decide_and, decide_eq_decide, List.map_cons, List.mem_cons, not_or]
    exact and_comm

/-- After a batch of distinct keys, and the deletion of all other rows, the table is the batch. -/
theorem retain_replaceAll (rows new : List ρ) (h : (new.map key).Nodup) :
    retain key (new.map key) (replaceAll key rows new) = new := by
  have hold : (rows.filter fun r => key r ∉ new.map key).filter (fun r => key r ∈ new.map key) = [] := by
    rw [List.filter_filter, List.filter_eq_nil_iff]
    intro r _
    simp
  have hnew : new.filter (fun r => key r ∈ new.map key) = new := by
    rw [List.filter_eq_self]
    intro r hr
    exact decide_eq_true (List.mem_map_of_mem hr)
  rw [replaceAll_eq rows new h, retain, List.filter_append, hold, hnew, List.nil_append]

/-- Which rows pass a filter after `INSERT OR REPLACE` depends on the rows that passed it before. -/
theorem filter_replace {p : ρ → Bool} {rows rows' : List ρ} (h : rows.filter p = rows'.filter p)
    (row : ρ) : (replace key rows row).filter p = (replace key rows' row).filter p := by
  have hcomm : ∀ l : List ρ, (l.filter fun r => key r ≠ key row).filter p =
      (l.filter p).filter fun r => key r ≠ key row := fun l => List.filter_comm ..
  rw [replace, replace, List.filter_append, List.filter_append, hcomm, hcomm, h]

end

/-! ## Transactions -/

structure Connection (τ : Type) where
  table : τ
  /-- The table at the start of the open transaction. -/
  saved : Option τ

namespace Connection

variable {τ : Type}

def start (c : Connection τ) : Connection τ := { c with saved := some c.table }

def rollback (c : Connection τ) : Connection τ := ⟨c.saved.getD c.table, none⟩

def commit (c : Connection τ) : Connection τ := ⟨c.table, none⟩

end Connection

/-- A transaction that is dropped before its commit is rolled back. -/
def transaction {τ ε : Type} (body : τ → Except ε Unit × τ) (commit : Except ε Unit) (table : τ) :
    Except ε Unit × τ :=
  let c := (Connection.mk table none).start
  let (r, table') := body c.table
  let c := { c with table := table' }
  match r, commit with
  | .ok (), .ok () => (.ok (), c.commit.table)
  | .ok (), .error e => (.error e, c.rollback.table)
  | .error e, _ => (.error e, c.rollback.table)

section

variable {τ ε : Type} {body : τ → Except ε Unit × τ} {commit : Except ε Unit} {table table' : τ}

theorem transaction_ok {u : Unit} (h : transaction body commit table = (.ok u, table')) :
    body table = (.ok (), table') := by
  rcases hbody : body table with ⟨_ | _, last⟩
  · simp [transaction, Connection.start, hbody] at h
  · cases commit with
    | error e => simp [transaction, Connection.start, hbody] at h
    | ok _ =>
      simp only [transaction, Connection.start, hbody, Connection.commit, Prod.mk.injEq] at h
      rw [h.2]

theorem transaction_error {e : ε} (h : transaction body commit table = (.error e, table')) :
    table' = table := by
  rcases hbody : body table with ⟨_ | _, last⟩
  · simp only [transaction, Connection.start, hbody, Connection.rollback, Prod.mk.injEq] at h
    exact h.2.symm
  · cases commit with
    | error _ =>
      simp only [transaction, Connection.start, hbody, Connection.rollback, Prod.mk.injEq] at h
      exact h.2.symm
    | ok _ => simp [transaction, Connection.start, hbody] at h

end

end Lib.Tables
