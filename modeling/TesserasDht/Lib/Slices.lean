import Mathlib.Data.List.Forall2

/-! # A list cut into pieces of one length -/

namespace Lib.Slices

variable {α : Type}

/-- `usize::div_ceil`. -/
def divCeil (n m : Nat) : Nat := n / m + if n % m = 0 then 0 else 1

theorem le_divCeil_mul (n m : Nat) (h : 0 < m) : n ≤ divCeil n m * m := by
  have hdiv := Nat.div_add_mod n m
  have hmod := Nat.mod_lt n h
  unfold divCeil
  split
  · rw [Nat.add_zero, Nat.mul_comm]; omega
  · rw [Nat.add_mul, Nat.one_mul, Nat.mul_comm (n / m)]; omega

theorem divCeil_mul_lt (n m : Nat) (h : 0 < m) : divCeil n m * m < n + m := by
  have hdiv := Nat.div_add_mod n m
  unfold divCeil
  split
  · rw [Nat.add_zero, Nat.mul_comm]; omega
  · rw [Nat.add_mul, Nat.one_mul, Nat.mul_comm (n / m)]; omega

theorem divCeil_pos (n m : Nat) (hn : 0 < n) (hm : 0 < m) : 0 < divCeil n m := by
  have := le_divCeil_mul n m hm
  apply Nat.pos_of_ne_zero
  intro h
  rw [h] at this
  omega

theorem divCeil_mono {n k : Nat} (m : Nat) (hm : 0 < m) (h : n ≤ k) : divCeil n m ≤ divCeil k m := by
  have hlt := divCeil_mul_lt n m hm
  have hle := le_divCeil_mul k m hm
  apply Nat.le_of_lt_succ
  apply Nat.lt_of_mul_lt_mul_right (a := m)
  rw [Nat.succ_mul]
  omega

theorem divCeil_le (n m : Nat) (hm : 0 < m) : divCeil n m ≤ n := by
  have hlt := divCeil_mul_lt n m hm
  by_contra hgt
  have hmul : (n + 1) * m ≤ divCeil n m * m := Nat.mul_le_mul_right m (by omega)
  have hn : n ≤ n * m := Nat.le_mul_of_pos_right n hm
  rw [Nat.add_mul, Nat.one_mul] at hmul
  omega

theorem divCeil_mul_right (n m : Nat) (hm : 0 < m) : divCeil (n * m) m = n := by
  simp [divCeil, Nat.mul_div_cancel _ hm]

/-- Piece `i` of length `m`. -/
def slice (m : Nat) (l : List α) (i : Nat) : List α := (l.drop (i * m)).take m

theorem slice_length (m : Nat) (l : List α) (i : Nat) :
    (slice m l i).length = min m (l.length - i * m) := by
  simp [slice]

theorem getElem?_slice (m : Nat) (l : List α) (i j : Nat) (hj : j < m) :
    (slice m l i)[j]? = l[i * m + j]? := by
  unfold slice
  rw [List.getElem?_take_of_lt hj, List.getElem?_drop]

theorem flatten_slices (m : Nat) (l : List α) (n : Nat) :
    ((List.range n).map (slice m l)).flatten = l.take (n * m) := by
  induction n with
  | zero => simp
  | succ n ih =>
    rw [List.range_succ, List.map_append, List.flatten_append, ih, Nat.succ_mul, List.take_add]
    simp [slice]

/-- `slice::chunks`: the last piece may be shorter. -/
def chunks (m : Nat) (l : List α) : List (List α) :=
  (List.range (divCeil l.length m)).map (slice m l)

theorem chunks_nil (m : Nat) : chunks m ([] : List α) = [] := by
  simp [chunks, divCeil]

theorem chunks_length (m : Nat) (l : List α) : (chunks m l).length = divCeil l.length m := by
  simp [chunks]

theorem mem_dropLast_chunks {m : Nat} {l g : List α} (hm : 0 < m) (h : g ∈ (chunks m l).dropLast) :
    ∃ i, g = slice m l i ∧ (i + 1) * m ≤ l.length := by
  obtain ⟨i, hi, rfl⟩ := List.getElem_of_mem h
  rw [List.length_dropLast, chunks_length] at hi
  refine ⟨i, ?_, ?_⟩
  · rw [List.getElem_dropLast]
    simp only [chunks, List.getElem_map, List.getElem_range]
  · have hlt := divCeil_mul_lt l.length m hm
    have hle : (i + 2) * m ≤ divCeil l.length m * m := Nat.mul_le_mul_right _ (by omega)
    rw [show i + 2 = i + 1 + 1 by omega, Nat.add_mul (i + 1)] at hle
    omega

theorem length_flatten_eq (ls : List (List α)) (m : Nat) (h : ∀ l ∈ ls, l.length = m) :
    ls.flatten.length = ls.length * m := by
  induction ls with
  | nil => simp
  | cons l ls ih =>
    rw [List.flatten_cons, List.length_append, h l List.mem_cons_self,
      ih (fun x hx => h x (List.mem_cons_of_mem _ hx)), List.length_cons, Nat.succ_mul]
    omega

theorem slice_flatten (ls : List (List α)) (m : Nat) (h : ∀ l ∈ ls, l.length = m) (i : Nat)
    (hi : i < ls.length) : slice m ls.flatten i = ls[i] := by
  induction ls generalizing i with
  | nil => simp at hi
  | cons l ls ih =>
    have hl : l.length = m := h l List.mem_cons_self
    cases i with
    | zero => simp [slice, ← hl]
    | succ i =>
      have := ih (fun x hx => h x (List.mem_cons_of_mem _ hx)) i (by simpa using hi)
      rw [List.getElem_cons_succ, ← this]
      unfold slice
      rw [List.flatten_cons, Nat.succ_mul, Nat.add_comm, ← List.drop_drop, ← hl, List.drop_left]

theorem chunks_flatten (ls : List (List α)) (m : Nat) (hm : 0 < m) (h : ∀ l ∈ ls, l.length = m) :
    chunks m ls.flatten = ls := by
  apply List.ext_getElem
  · rw [chunks_length, length_flatten_eq ls m h, divCeil_mul_right _ _ hm]
  · intro i _ hi
    simp only [chunks, List.getElem_map, List.getElem_range]
    exact slice_flatten ls m h i hi

theorem forall₂_chunks {β : Type} {R : α → β → Prop} (ls : List (List α)) (m : Nat) (hm : 0 < m)
    (hlen : ∀ l ∈ ls, l.length = m) (ys : List β) (h : List.Forall₂ R ls.flatten ys) :
    List.Forall₂ (List.Forall₂ R) ls (chunks m ys) := by
  rw [← chunks_flatten ls m hm hlen]
  unfold chunks
  rw [h.length_eq, List.forall₂_map_left_iff, List.forall₂_map_right_iff, List.forall₂_same]
  intro i _
  exact List.forall₂_take m (List.forall₂_drop (i * m) h)

end Lib.Slices
