import Mathlib.Data.List.Sort
import Mathlib.Data.Finset.Card
import Mathlib.Data.List.Nodup
import Mathlib.Data.List.Forall2
import Mathlib.Algebra.Order.BigOperators.Group.List
import Mathlib.Algebra.Order.Ring.Nat

/-! # Lists as the code uses them -/

namespace Lib.Lists

variable {α β : Type}

/-! ## Change the first match -/

/-- `iter_mut().find(p)`, and a change of what it finds. -/
def modifyFirst (p : α → Bool) (f : α → α) : List α → List α
  | [] => []
  | x :: xs => if p x then f x :: xs else x :: modifyFirst p f xs

theorem find?_modifyFirst (p : α → Bool) (f : α → α) (hf : ∀ x, p x = true → p (f x) = true)
    (l : List α) : (modifyFirst p f l).find? p = (l.find? p).map f := by
  induction l with
  | nil => rfl
  | cons x xs ih =>
    rw [modifyFirst]
    by_cases hx : p x = true
    · simp [hx, hf x hx]
    · simp [hx, ih]

theorem map_modifyFirst (p : α → Bool) (f : α → α) (g : α → β) (hg : ∀ x, g (f x) = g x)
    (l : List α) : (modifyFirst p f l).map g = l.map g := by
  induction l with
  | nil => rfl
  | cons x xs ih =>
    rw [modifyFirst]
    split
    · simp [hg]
    · simp [ih]

theorem length_modifyFirst (p : α → Bool) (f : α → α) (l : List α) :
    (modifyFirst p f l).length = l.length := by
  simpa using congrArg List.length (map_modifyFirst p f (fun _ => ()) (fun _ => rfl) l)

theorem mem_modifyFirst {p : α → Bool} {f : α → α} {l : List α} {y : α} (h : y ∈ modifyFirst p f l) :
    y ∈ l ∨ ∃ x ∈ l, p x = true ∧ y = f x := by
  induction l with
  | nil => exact Or.inl h
  | cons a rest ih =>
    unfold modifyFirst at h
    split at h
    next hp =>
      rcases List.mem_cons.mp h with rfl | h
      · exact Or.inr ⟨a, List.mem_cons_self, hp, rfl⟩
      · exact Or.inl (List.mem_cons_of_mem _ h)
    next =>
      rcases List.mem_cons.mp h with rfl | h
      · exact Or.inl List.mem_cons_self
      · rcases ih h with h | ⟨x, hx, hpx⟩
        · exact Or.inl (List.mem_cons_of_mem _ h)
        · exact Or.inr ⟨x, List.mem_cons_of_mem _ hx, hpx⟩

theorem getElem?_modifyFirst (p : α → Bool) (f : α → α) (l : List α) (i : Nat) :
    (modifyFirst p f l)[i]? = l[i]? ∨ (modifyFirst p f l)[i]? = l[i]?.map f := by
  induction l generalizing i with
  | nil => exact Or.inl rfl
  | cons x xs ih =>
    rw [modifyFirst]
    split <;> cases i
    · exact Or.inr rfl
    · exact Or.inl rfl
    · exact Or.inl rfl
    · exact ih _

theorem modifyFirst_eq_self {p : α → Bool} {f : α → α} {l : List α} (h : l.find? p = none) :
    modifyFirst p f l = l := by
  induction l with
  | nil => rfl
  | cons x xs ih =>
    cases hp : p x with
    | true => simp [hp] at h
    | false =>
      rw [List.find?_cons_of_neg (by simp [hp])] at h
      rw [modifyFirst, if_neg (by simp [hp]), ih h]

theorem modifyFirst_eq_set {p : α → Bool} {l : List α} {x : α} (h : l.find? p = some x) :
    ∃ i, l[i]? = some x ∧ ∀ f, modifyFirst p f l = l.set i (f x) := by
  induction l with
  | nil => cases h
  | cons y ys ih =>
    cases hp : p y with
    | true =>
      rw [List.find?_cons_of_pos hp] at h
      cases h
      refine ⟨0, rfl, fun f => ?_⟩
      rw [modifyFirst, if_pos hp]
      rfl
    | false =>
      rw [List.find?_cons_of_neg (by simp [hp])] at h
      obtain ⟨i, hi, hset⟩ := ih h
      refine ⟨i + 1, hi, fun f => ?_⟩
      rw [modifyFirst, if_neg (by simp [hp]), hset]
      rfl

/-! ## Remove the first match -/

theorem map_eraseP_eq_erase [DecidableEq β] (g : α → β) (b : β) (l : List α) :
    (l.eraseP (fun x => g x = b)).map g = (l.map g).erase b := by
  induction l with
  | nil => rfl
  | cons x xs ih =>
    by_cases h : g x = b
    · simp [h]
    · simp [h, ih]

/-! ## Keys of a list -/

theorem nodup_map_concat (g : α → β) (l : List α) (x : α) (h : (l.map g).Nodup)
    (hx : ∀ y ∈ l, g y ≠ g x) : ((l ++ [x]).map g).Nodup := by
  rw [List.map_append, List.nodup_append]
  refine ⟨h, by simp, ?_⟩
  intro b hb b' hb'
  obtain ⟨y, hy, rfl⟩ := List.mem_map.mp hb
  rw [List.mem_singleton.mp hb']
  exact hx y hy

theorem sum_map_eq_filter_add [DecidableEq β] (g : α → β) (w : α → Nat) (l : List α)
    (h : (l.map g).Nodup) (x : α) (hx : x ∈ l) :
    (l.map w).sum = ((l.filter fun y => g y ≠ g x).map w).sum + w x := by
  induction l with
  | nil => cases hx
  | cons y l ih =>
    rw [List.map_cons, List.nodup_cons] at h
    rcases List.mem_cons.mp hx with rfl | hx
    · have hrest : l.filter (fun y => g y ≠ g x) = l := by
        apply List.filter_eq_self.mpr
        intro y hy
        have : g y ≠ g x := fun hkey => h.1 (hkey ▸ List.mem_map_of_mem hy)
        simpa using this
      rw [List.filter_cons_of_neg (by simp), hrest, List.map_cons, List.sum_cons, Nat.add_comm]
    · have hy : g y ≠ g x := fun hkey => h.1 (hkey ▸ List.mem_map_of_mem hx)
      rw [List.filter_cons_of_pos (by simpa using hy), List.map_cons, List.map_cons, List.sum_cons,
        List.sum_cons, ih h.2 hx, Nat.add_assoc]

/-! ## A list with one element replaced or appended -/

theorem getElem?_set_some {l : List α} {i j : Nat} {x y : α} (h : (l.set i x)[j]? = some y) :
    (j = i ∧ y = x) ∨ (j ≠ i ∧ l[j]? = some y) := by
  rw [List.getElem?_set] at h
  split at h
  next heq =>
    split at h
    · exact Or.inl ⟨heq.symm, (Option.some.inj h).symm⟩
    · cases h
  next hne => exact Or.inr ⟨Ne.symm hne, h⟩

theorem mem_set_of_ne {l : List α} {i : Nat} {x y : α} (hi : l[i]? = some x) (hy : y ∈ l)
    (hne : y ≠ x) (z : α) : y ∈ l.set i z := by
  obtain ⟨j, hj⟩ := List.mem_iff_getElem?.mp hy
  apply List.mem_iff_getElem?.mpr
  refine ⟨j, ?_⟩
  rw [List.getElem?_set_ne, hj]
  rintro rfl
  exact hne (Option.some.inj (hj.symm.trans hi))

theorem getElem?_concat_some {l : List α} {i : Nat} {x y : α} (h : (l ++ [x])[i]? = some y) :
    l[i]? = some y ∨ (i = l.length ∧ y = x) := by
  rw [List.getElem?_append] at h
  split at h
  · exact Or.inl h
  next hge =>
    have := List.getElem?_eq_some_iff.mp h
    obtain ⟨hlt, heq⟩ := this
    simp only [List.length_singleton] at hlt
    exact Or.inr ⟨by omega, by simpa using heq.symm⟩

theorem sum_map_set (w : α → Nat) (l : List α) (i : Nat) (x y : α) (h : l[i]? = some x) :
    ((l.set i y).map w).sum + w x = (l.map w).sum + w y := by
  induction l generalizing i with
  | nil => cases h
  | cons z l ih =>
    cases i with
    | zero =>
      cases h
      simp only [List.set_cons_zero, List.map_cons, List.sum_cons]
      omega
    | succ i =>
      have := ih i h
      simp only [List.set_cons_succ, List.map_cons, List.sum_cons]
      omega

theorem le_sum_map (w : α → Nat) (l : List α) (i : Nat) (x : α) (h : l[i]? = some x) :
    w x ≤ (l.map w).sum :=
  List.single_le_sum (fun _ _ => Nat.zero_le _) _ (List.mem_map_of_mem (List.mem_of_getElem? h))

/-! ## Places that hold something -/

theorem card_le_countP (p : α → Bool) (l : List α) (js : Finset Nat)
    (h : ∀ j ∈ js, ∃ x, l[j]? = some x ∧ p x = true) : js.card ≤ l.countP p := by
  let places := (l.zipIdx.filter fun q => p q.1).map Prod.snd
  have hsub : js ⊆ places.toFinset := by
    intro j hj
    obtain ⟨x, hx, hp⟩ := h j hj
    rw [List.mem_toFinset]
    apply List.mem_map.mpr
    refine ⟨(x, j), List.mem_filter.mpr ⟨?_, hp⟩, rfl⟩
    exact List.mem_zipIdx_iff_getElem?.mpr hx
  calc js.card ≤ places.toFinset.card := Finset.card_le_card hsub
    _ ≤ places.length := List.toFinset_card_le places
    _ = l.countP p := by
      rw [List.length_map, ← List.countP_eq_length_filter]
      conv_rhs => rw [← List.zipIdx_map_fst 0 l, List.countP_map]
      rfl

theorem sum_map_min_le (w : α → Nat) (c : Nat) (l : List α) :
    (l.map fun x => min c (w x)).sum ≤ l.length * c := by
  induction l with
  | nil => simp
  | cons x l ih =>
    rw [List.map_cons, List.sum_cons, List.length_cons, Nat.succ_mul]
    omega

/-- A sum of parts that are cut to `c` is full just when no part is shorter. -/
theorem sum_map_min_eq_iff (w : α → Nat) (c : Nat) (l : List α) :
    (l.map fun x => min c (w x)).sum = l.length * c ↔ ∀ x ∈ l, c ≤ w x := by
  induction l with
  | nil => simp
  | cons x l ih =>
    have hrest := sum_map_min_le w c l
    rw [List.map_cons, List.sum_cons, List.length_cons, Nat.succ_mul, List.forall_mem_cons]
    constructor
    · intro h
      exact ⟨by omega, ih.mp (by omega)⟩
    · rintro ⟨hx, hl⟩
      have := ih.mpr hl
      omega

/-! ## The last place of an element -/

theorem exists_last (l : List α) (x : α) (h : x ∈ l) :
    ∃ j : Nat, l[j]? = some x ∧ ∀ k, j < k → l[k]? ≠ some x := by
  induction l using List.reverseRecOn with
  | nil => cases h
  | append_singleton l y ih =>
    by_cases hy : y = x
    · refine ⟨l.length, by simp [hy], ?_⟩
      intro k hk
      rw [List.getElem?_eq_none (by simp; omega)]
      rintro ⟨⟩
    · have hmem : x ∈ l := by simpa [Ne.symm hy] using h
      obtain ⟨j, hj, hlast⟩ := ih hmem
      refine ⟨j, by rw [List.getElem?_append_left (List.getElem?_eq_some_iff.mp hj).1, hj], ?_⟩
      intro k hk hx
      rcases getElem?_concat_some hx with h' | ⟨-, rfl⟩
      · exact hlast k hk h'
      · exact hy rfl

/-! ## A loop with `?` -/

section

variable {ε : Type} {f : α → Except ε β}

theorem mapM_exists {P : α → β → Prop} (l : List α) (h : ∀ x ∈ l, ∃ y, f x = .ok y ∧ P x y) :
    ∃ ys, l.mapM f = .ok ys ∧ List.Forall₂ P l ys := by
  induction l with
  | nil => exact ⟨[], rfl, List.Forall₂.nil⟩
  | cons x xs ih =>
    obtain ⟨y, hy, hP⟩ := h x List.mem_cons_self
    obtain ⟨ys, hys, hall⟩ := ih (fun z hz => h z (List.mem_cons_of_mem x hz))
    refine ⟨y :: ys, ?_, List.Forall₂.cons hP hall⟩
    rw [List.mapM_cons, hy, hys]
    rfl

theorem mapM_ok_mem (l : List α) (ys : List β) (h : l.mapM f = .ok ys) :
    ∀ x ∈ l, ∃ y, f x = .ok y := by
  induction l generalizing ys with
  | nil => intro x hx; cases hx
  | cons a as ih =>
    rw [List.mapM_cons] at h
    cases ha : f a with
    | error e => rw [ha] at h; cases h
    | ok y =>
      cases has : as.mapM f with
      | error e => rw [ha, has] at h; cases h
      | ok ys =>
        intro x hx
        rcases List.mem_cons.mp hx with rfl | hx
        · exact ⟨y, ha⟩
        · exact ih ys has x hx

end

/-! ## A stable sort by two classes -/

section

variable (p : α → Bool)

theorem orderedInsert_class {a : α} (h : p a = false) (xs ys : List α) (hxs : ∀ x ∈ xs, p x = true)
    (hys : ∀ y ∈ ys, p y = false) :
    List.orderedInsert (fun a b => (!p a) ≤ (!p b)) a (xs ++ ys) = xs ++ a :: ys := by
  induction xs with
  | nil =>
    cases ys with
    | nil => rfl
    | cons y ys =>
      have hy := hys y List.mem_cons_self
      simp [h, hy]
  | cons x xs ih =>
    have hx := hxs x List.mem_cons_self
    have hrest := ih fun z hz => hxs z (List.mem_cons_of_mem x hz)
    rw [List.cons_append, List.orderedInsert_cons, if_neg (by simp [h, hx]), hrest]
    rfl

/-- Those with `p` come first, and the order of each class stays. -/
theorem insertionSort_class (l : List α) :
    l.insertionSort (fun a b => (!p a) ≤ (!p b)) = l.filter p ++ l.filter fun a => !p a := by
  induction l with
  | nil => rfl
  | cons a l ih =>
    rw [List.insertionSort_cons, ih]
    cases h : p a with
    | true =>
      rw [List.filter_cons_of_pos h, List.filter_cons_of_neg (by simp [h])]
      cases hl : l.filter p ++ l.filter fun a => !p a with
      | nil =>
        obtain ⟨hpos, hneg⟩ := List.append_eq_nil_iff.mp hl
        rw [hpos, hneg]
        rfl
      | cons b bs => rw [List.orderedInsert_cons, if_pos (by simp [h]), List.cons_append, hl]
    | false =>
      rw [orderedInsert_class p h _ _ (by simp) (by simp), List.filter_cons_of_neg (by simp [h]),
        List.filter_cons_of_pos (by simp [h])]

variable [DecidableEq α]

/-- An entry is among the first `n` when fewer than `n` entries come before it. -/
theorem mem_take_iff_takeWhile {l : List α} {a : α} (h : a ∈ l) (n : Nat) :
    a ∈ l.take n ↔ (l.takeWhile (· ≠ a)).length < n := by
  induction l generalizing n with
  | nil => cases h
  | cons x l ih =>
    cases n with
    | zero => simp
    | succ n =>
      by_cases hx : x = a
      · simp [hx]
      · have hl : a ∈ l := (List.mem_cons.mp h).resolve_left (Ne.symm hx)
        simp [hx, Ne.symm hx, ih hl]

theorem takeWhile_filter {a : α} (h : p a = true) (l : List α) :
    (l.filter p).takeWhile (· ≠ a) = (l.takeWhile (· ≠ a)).filter p := by
  induction l with
  | nil => rfl
  | cons x l ih =>
    by_cases hx : x = a
    · simp [hx, h]
    · by_cases hp : p x = true <;> simpa [hx, hp] using ih

end

end Lib.Lists
