import Mathlib.Data.List.Sort

/-!
# The nearest entries of a list

`d` is the distance of an entry, and `r` the order by distance. The lists have distinct distances, so
an entry is one of the `k` nearest just when fewer than `k` entries are nearer.
-/

namespace Lib.Nearest

variable {α : Type}

def nearest (r : α → α → Prop) [DecidableRel r] (k : Nat) (l : List α) : List α :=
  (l.insertionSort r).take k

/-- How many entries are nearer. -/
def rank (d : α → Nat) (l : List α) (u : α) : Nat := l.countP fun v => d v < d u

section

variable {d : α → Nat} {k : Nat} {l c : List α} {u v : α}

theorem rank_mono (h : d u ≤ d v) : rank d l u ≤ rank d l v := by
  refine List.countP_mono_left fun w _ hw => ?_
  simp only [decide_eq_true_eq] at hw ⊢
  omega

theorem rank_cons (x : α) : rank d (x :: l) u = rank d l u + if d x < d u then 1 else 0 := by
  simp [rank, List.countP_cons]

theorem mem_take_iff (h : l.Pairwise fun a b => d a < d b) : u ∈ l.take k ↔ u ∈ l ∧ rank d l u < k := by
  induction l generalizing k with
  | nil => simp
  | cons x xs ih =>
    obtain ⟨hx, hxs⟩ := List.pairwise_cons.mp h
    have hfirst : rank d xs x = 0 := by
      rw [rank, List.countP_eq_zero]
      intro v hv
      have := hx v hv
      simp only [decide_eq_true_eq]
      omega
    cases k with
    | zero => simp
    | succ k =>
      rw [List.take_succ_cons, List.mem_cons, List.mem_cons, ih hxs, rank_cons]
      constructor
      · rintro (rfl | ⟨hu, hlt⟩)
        · exact ⟨Or.inl rfl, by rw [hfirst, if_neg (lt_irrefl _)]; omega⟩
        · exact ⟨Or.inr hu, by split <;> omega⟩
      · rintro ⟨rfl | hu, hlt⟩
        · exact Or.inl rfl
        · rw [if_pos (hx u hu)] at hlt
          exact Or.inr ⟨hu, by omega⟩

variable {r : α → α → Prop} [DecidableRel r]

theorem pairwise_insertionSort (hr : ∀ a b, r a b ↔ d a ≤ d b) (hnd : (l.map d).Nodup) :
    (l.insertionSort r).Pairwise fun a b => d a < d b := by
  have : Std.Total r := ⟨fun a b => by rw [hr, hr]; omega⟩
  have : IsTrans α r := ⟨fun a b c => by rw [hr, hr, hr]; omega⟩
  have hne : (l.insertionSort r).Pairwise fun a b => d a ≠ d b :=
    List.pairwise_map.mp (((List.perm_insertionSort r l).map d).nodup_iff.mpr hnd)
  refine ((List.pairwise_insertionSort r l).and hne).imp ?_
  rintro a b ⟨hle, hab⟩
  exact lt_of_le_of_ne ((hr a b).mp hle) hab

theorem nearest_pairwise (hr : ∀ a b, r a b ↔ d a ≤ d b) (hnd : (l.map d).Nodup) : (nearest r k l).Pairwise fun a b => d a < d b :=
  (pairwise_insertionSort hr hnd).sublist (List.take_sublist _ _)

theorem mem_nearest (hr : ∀ a b, r a b ↔ d a ≤ d b) (hnd : (l.map d).Nodup) :
    u ∈ nearest r k l ↔ u ∈ l ∧ rank d l u < k := by
  rw [nearest, mem_take_iff (pairwise_insertionSort hr hnd), List.mem_insertionSort, rank,
    (List.perm_insertionSort r l).countP_eq]
  rfl

theorem nodup_nearest (hnd : (l.map d).Nodup) : (nearest r k l).Nodup :=
  ((List.perm_insertionSort r l).nodup_iff.mpr (hnd.of_map d)).sublist (List.take_sublist _ _)

theorem length_nearest : (nearest r k l).length = min k l.length := by
  rw [nearest, List.length_take, List.length_insertionSort]

/-- An entry is left out only for `k` entries that are nearer. -/
theorem mem_nearest_or (hr : ∀ a b, r a b ↔ d a ≤ d b) (hnd : (l.map d).Nodup) (hu : u ∈ l) :
    u ∈ nearest r k l ∨ (nearest r k l).length = k ∧ ∀ v ∈ nearest r k l, d v < d u := by
  by_cases hrank : rank d l u < k
  · exact Or.inl ((mem_nearest hr hnd).mpr ⟨hu, hrank⟩)
  · right
    have hlen : rank d l u ≤ l.length := List.countP_le_length
    refine ⟨by rw [length_nearest]; omega, fun v hv => ?_⟩
    have hvrank := ((mem_nearest hr hnd).mp hv).2
    by_contra hfar
    have := rank_mono (l := l) (Nat.le_of_not_lt hfar)
    omega

/-- The entry at place `i` of a sorted list is within `x` just when more than `i` entries are. -/
theorem getElem?_within_iff {x : Nat} (h : l.Pairwise fun a b => d a < d b) (i : Nat) :
    (∃ v ∈ l[i]?, d v ≤ x) ↔ i < l.countP fun v => d v ≤ x := by
  induction l generalizing i with
  | nil => simp
  | cons y ys ih =>
    obtain ⟨hy, hys⟩ := List.pairwise_cons.mp h
    by_cases hle : d y ≤ x
    · rw [List.countP_cons_of_pos (by simpa using hle)]
      cases i with
      | zero => simp [hle]
      | succ i => simpa using ih hys i
    · -- All entries after `y` are farther still.
      have hnone : (y :: ys).countP (fun v => d v ≤ x) = 0 := by
        rw [List.countP_eq_zero]
        intro v hv
        rcases List.mem_cons.mp hv with rfl | hv
        · simpa using hle
        · have := hy v hv
          simp only [decide_eq_true_eq]
          omega
      rw [hnone]
      refine iff_of_false ?_ (Nat.not_lt_zero i)
      rintro ⟨v, hv, hvx⟩
      have := List.countP_eq_zero.mp hnone v (List.mem_of_getElem? hv)
      simp only [decide_eq_true_eq] at this
      omega

/-- At every rank the nearest entries of a list are at least as near as those of a part of it. -/
theorem nearest_getElem?_le (hr : ∀ a b, r a b ↔ d a ≤ d b) (hnd : (l.map d).Nodup)
    (hc : c.Pairwise fun a b => d a < d b) (hlen : c.length ≤ k) (hsub : c.Subperm l) {i : Nat}
    (hu : u ∈ (c)[i]?) : ∃ v ∈ (nearest r k l)[i]?, d v ≤ d u := by
  have hi : i < k := by
    have := (List.getElem?_eq_some_iff.mp hu).1
    omega
  have hcount : i < (l.insertionSort r).countP fun v => d v ≤ d u := calc
    i < c.countP fun v => d v ≤ d u := (getElem?_within_iff hc i).mp ⟨u, hu, le_refl _⟩
    _ ≤ l.countP fun v => d v ≤ d u := hsub.countP_le _
    _ = (l.insertionSort r).countP fun v => d v ≤ d u := ((List.perm_insertionSort r l).countP_eq _).symm
  obtain ⟨v, hv, hle⟩ := (getElem?_within_iff (pairwise_insertionSort hr hnd) i).mpr hcount
  exact ⟨v, by rw [nearest, List.getElem?_take_of_lt hi]; exact hv, hle⟩

/-- Some of the entries are enough just when all of the `k` nearest are among them. -/
theorem nearest_eq_iff (hr : ∀ a b, r a b ↔ d a ≤ d b) (hnd : (l.map d).Nodup) (hsub : c.Subperm l) :
    nearest r k c = nearest r k l ↔ ∀ u ∈ l, rank d l u < k → u ∈ c := by
  have hcnd : (c.map d).Nodup := by
    obtain ⟨c', hperm, hsublist⟩ := hsub
    exact (hperm.map d).nodup_iff.mp (hnd.sublist (hsublist.map d))
  constructor
  · intro h u hu hrank
    exact ((mem_nearest hr hcnd).mp (h ▸ (mem_nearest hr hnd).mpr ⟨hu, hrank⟩)).1
  · intro h
    have : Std.Irrefl fun a b : α => d a < d b := ⟨fun a => lt_irrefl _⟩
    have : Std.Antisymm fun a b : α => d a < d b := ⟨fun a b hab hba => absurd hab (lt_asymm hba)⟩
    refine List.Pairwise.eq_of_mem_iff (nearest_pairwise hr hcnd) (nearest_pairwise hr hnd) fun u => ?_
    rw [mem_nearest hr hcnd, mem_nearest hr hnd]
    constructor
    · rintro ⟨hu, hrank⟩
      refine ⟨hsub.subset hu, ?_⟩
      by_contra hfar
      -- The `k` nearest are all nearer than `u`, and all among the entries.
      have hnearer : nearest r k l ⊆ c.filter fun v => d v < d u := by
        intro v hv
        obtain ⟨hvl, hvrank⟩ := (mem_nearest hr hnd).mp hv
        refine List.mem_filter.mpr ⟨h v hvl hvrank, decide_eq_true ?_⟩
        by_contra hle
        have := rank_mono (l := l) (Nat.le_of_not_lt hle)
        omega
      have hcount := (List.subperm_of_subset (nodup_nearest hnd) hnearer).length_le
      have hlen : rank d l u ≤ l.length := List.countP_le_length
      rw [length_nearest, ← List.countP_eq_length_filter] at hcount
      rw [rank] at hrank
      omega
    · rintro ⟨hu, hrank⟩
      exact ⟨h u hu hrank, lt_of_le_of_lt (hsub.countP_le _) hrank⟩

end

/-! ## Entries that come one by one -/

/-- There is room for the entry, or it is nearer than the last one. -/
def Admits (d : α → Nat) (k : Nat) (c : List α) (y : α) : Prop :=
  c.length < k ∨ ∀ last ∈ c.getLast?, d y < d last

instance (d : α → Nat) (k : Nat) (c : List α) (y : α) : Decidable (Admits d k c y) := by
  unfold Admits; infer_instance

def accept (d : α → Nat) (k : Nat) (c : List α) : List α → List α
  | [] => c
  | y :: ys => if Admits d k c y then accept d k (c ++ [y]) ys else accept d k c ys

section

variable {d : α → Nat} {k : Nat} {c ys : List α}

theorem accept_eq (d : α → Nat) (k : Nat) (c ys : List α) : ∃ zs, zs.Sublist ys ∧ accept d k c ys = c ++ zs := by
  induction ys generalizing c with
  | nil => exact ⟨[], .slnil, by simp [accept]⟩
  | cons y ys ih =>
    unfold accept
    split
    · obtain ⟨zs, hsub, he⟩ := ih (c ++ [y])
      exact ⟨y :: zs, hsub.cons_cons y, by rw [he, List.append_assoc, List.singleton_append]⟩
    · obtain ⟨zs, hsub, he⟩ := ih c
      exact ⟨zs, hsub.cons y, he⟩

theorem accept_sublist (d : α → Nat) (k : Nat) (c ys : List α) : (accept d k c ys).Sublist (c ++ ys) := by
  obtain ⟨zs, hsub, he⟩ := accept_eq d k c ys
  rw [he]
  exact hsub.append_left c

theorem mem_accept_of_mem {u : α} (h : u ∈ c) : u ∈ accept d k c ys := by
  obtain ⟨zs, -, he⟩ := accept_eq d k c ys
  rw [he]
  exact List.mem_append_left _ h

/-- An entry is refused only for one that is no farther. -/
theorem accept_within {u : α} (hc : c ≠ [] ∨ 1 ≤ k) (hu : u ∈ ys) : ∃ v ∈ accept d k c ys, d v ≤ d u := by
  induction ys generalizing c with
  | nil => cases hu
  | cons y ys ih =>
    unfold accept
    by_cases hadmits : Admits d k c y
    · rw [if_pos hadmits]
      rcases List.mem_cons.mp hu with rfl | hu
      · exact ⟨u, mem_accept_of_mem (List.mem_append_right _ (List.mem_singleton_self u)), le_refl _⟩
      · exact ih (Or.inl (by simp)) hu
    · rw [if_neg hadmits]
      rcases List.mem_cons.mp hu with rfl | hu
      · obtain ⟨hfull, hfar⟩ := not_or.mp hadmits
        push Not at hfar
        obtain ⟨last, hlast, hle⟩ := hfar
        exact ⟨last, mem_accept_of_mem (List.mem_of_getLast? hlast), hle⟩
      · exact ih hc hu

theorem accept_room (xs : List α) (h : c.length + xs.length ≤ k) :
    accept d k c (xs ++ ys) = accept d k (c ++ xs) ys := by
  induction xs generalizing c with
  | nil => simp
  | cons x xs ih =>
    rw [List.length_cons] at h
    have hadmits : Admits d k c x := Or.inl (by omega)
    rw [List.cons_append, accept, if_pos hadmits, ih (by simp; omega)]
    simp

/-- By induction on the entries: the accepted ones come nearer and nearer. -/
theorem accept_full {last : α} (top : α → Prop) (hlast : c.getLast? = some last) (hfull : k ≤ c.length)
    (hnd : ((c ++ ys).map d).Nodup) :
    (∀ u ∈ ys, top u → u ∈ accept d k c ys) ↔
      (∀ u ∈ ys, top u → d u < d last) ∧ ys.Pairwise fun a b => top b → d b < d a := by
  induction ys generalizing c last with
  | nil => simp
  | cons y ys ih =>
    rw [List.forall_mem_cons, List.forall_mem_cons, List.pairwise_cons]
    by_cases hy : d y < d last
    · have hstep : accept d k c (y :: ys) = accept d k (c ++ [y]) ys := by
        have hadmits : Admits d k c y := by
          refine Or.inr ?_
          rw [hlast]
          rintro _ ⟨⟩
          exact hy
        rw [accept, if_pos hadmits]
      rw [hstep, ih (List.getLast?_concat) (by simp; omega) (by simpa using hnd)]
      constructor
      · rintro ⟨-, hnear, hrest⟩
        exact ⟨⟨fun _ => hy, fun u hu ht => lt_trans (hnear u hu ht) hy⟩, hnear, hrest⟩
      · rintro ⟨-, hnear, hrest⟩
        exact ⟨fun _ => mem_accept_of_mem (List.mem_append_right _ (List.mem_singleton_self y)), hnear, hrest⟩
    · have hstep : accept d k c (y :: ys) = accept d k c ys := by
        have hrefuse : ¬Admits d k c y := by
          rw [Admits, hlast, not_or]
          exact ⟨by omega, fun h => hy (h last rfl)⟩
        rw [accept, if_neg hrefuse]
      have hsplit : ((c ++ ys).map d).Nodup ∧ ∀ v ∈ c ++ ys, d v ≠ d y := by
        have hperm : ((c ++ y :: ys).map d).Perm (d y :: (c ++ ys).map d) := List.perm_middle.map d
        obtain ⟨hno, hrest⟩ := List.nodup_cons.mp (hperm.nodup_iff.mp hnd)
        exact ⟨hrest, fun v hv he => hno (he ▸ List.mem_map_of_mem hv)⟩
      have hout : y ∉ accept d k c ys := fun hmem =>
        hsplit.2 y ((accept_sublist d k c ys).subset hmem) rfl
      rw [hstep, ih hlast hfull hsplit.1]
      constructor
      · rintro ⟨hno, hnear, hrest⟩
        refine ⟨⟨fun ht => absurd (hno ht) hout, hnear⟩, fun u hu ht => ?_, hrest⟩
        have := hnear u hu ht
        omega
      · rintro ⟨⟨hno, hnear⟩, -, hrest⟩
        exact ⟨fun ht => absurd (hno ht) hy, hnear, hrest⟩

variable {r : α → α → Prop} [DecidableRel r]

/-- Of the entries from the one on that fills the list, those that are among the `k` nearest have to
come from far to near. -/
theorem accept_nearest_iff (hr : ∀ a b, r a b ↔ d a ≤ d b) (hk : 1 ≤ k)
    (hc : c.Pairwise fun a b => d a < d b) (hlen : c.length ≤ k) (hnd : ((c ++ ys).map d).Nodup) :
    nearest r k (accept d k c ys) = nearest r k (c ++ ys) ↔
      ((ys.drop (k - c.length - 1)).filter fun u => rank d (c ++ ys) u < k).Pairwise fun a b => d b < d a := by
  rw [nearest_eq_iff hr hnd (accept_sublist d k c ys).subperm, List.pairwise_filter]
  have htop {l : List α} : (l.Pairwise fun a b => rank d (c ++ ys) b < k → d b < d a) ↔
      l.Pairwise fun a b => decide (rank d (c ++ ys) a < k) = true →
        decide (rank d (c ++ ys) b < k) = true → d b < d a := by
    constructor
    · exact fun h => h.imp fun hab _ hb => hab (of_decide_eq_true hb)
    · refine fun h => h.imp fun {a b} hab hb => ?_
      by_contra hfar
      have hle := rank_mono (l := c ++ ys) (Nat.le_of_not_lt hfar)
      exact hfar (hab (decide_eq_true (by omega)) (decide_eq_true hb))
  rw [← htop]
  have hold (u : α) (hu : u ∈ c) : u ∈ accept d k c ys := mem_accept_of_mem hu
  have hsplit : (∀ u ∈ c ++ ys, rank d (c ++ ys) u < k → u ∈ accept d k c ys) ↔
      ∀ u ∈ ys, rank d (c ++ ys) u < k → u ∈ accept d k c ys := by
    rw [List.forall_mem_append]
    exact and_iff_right fun u hu _ => hold u hu
  rw [hsplit]
  rcases Nat.lt_or_ge c.length k with hroom | hfull
  · -- The last of the first `k - c.length` entries is the one to compare with.
    obtain ⟨m, hm⟩ : ∃ m, k - c.length = m + 1 := ⟨k - c.length - 1, by omega⟩
    rw [hm, Nat.add_sub_cancel]
    rcases Nat.lt_or_ge m ys.length with hlong | hshort
    · obtain ⟨xs, t, rest, rfl, hxs⟩ : ∃ xs t rest, ys = xs ++ t :: rest ∧ xs.length = m := by
        refine ⟨ys.take m, ys[m], ys.drop (m + 1), ?_, by rw [List.length_take]; omega⟩
        rw [← List.drop_eq_getElem_cons hlong, List.take_append_drop]
      have happ : xs ++ t :: rest = xs ++ [t] ++ rest := by simp
      have haccept : accept d k c (xs ++ t :: rest) = accept d k (c ++ (xs ++ [t])) rest := by
        rw [happ, accept_room]
        simp
        omega
      have hfirst (u : α) (hu : u ∈ xs ++ [t]) : u ∈ accept d k (c ++ (xs ++ [t])) rest :=
        mem_accept_of_mem (List.mem_append_right _ hu)
      have hlast : (c ++ (xs ++ [t])).getLast? = some t := by simp
      rw [List.drop_left' hxs, haccept, List.pairwise_cons]
      rw [← accept_full (k := k) (fun u => rank d (c ++ (xs ++ t :: rest)) u < k) hlast
        (by simp; omega) (by simpa using hnd)]
      rw [happ, List.forall_mem_append]
      exact and_iff_right fun u hu _ => hfirst u hu
    · have haccept : accept d k c ys = c ++ ys := by
        have hall : accept d k c (ys ++ []) = accept d k (c ++ ys) [] := accept_room ys (by omega)
        rwa [List.append_nil, accept] at hall
      rw [List.drop_eq_nil_of_le hshort, haccept]
      exact iff_of_true (fun u hu _ => List.mem_append_right _ hu) List.Pairwise.nil
  · -- Whatever is farther than the last entry of a full list is not among the `k` nearest.
    obtain ⟨last, hlast⟩ : ∃ last, c.getLast? = some last := by
      cases hl : c.getLast? with
      | none =>
        rw [List.getLast?_eq_none_iff.mp hl] at hfull
        simp at hfull
        omega
      | some last => exact ⟨last, rfl⟩
    rw [show k - c.length - 1 = 0 by omega, List.drop_zero,
      accept_full (fun u => rank d (c ++ ys) u < k) hlast hfull hnd]
    refine and_iff_right fun u hu hrank => ?_
    by_contra hfar
    have hnear : c.filter (fun v => d v < d u) = c := by
      rw [List.filter_eq_self]
      intro v hv
      obtain ⟨init, rfl⟩ := List.getLast?_eq_some_iff.mp hlast
      have hne : d v ≠ d u := by
        rw [List.map_append, List.nodup_append] at hnd
        exact hnd.2.2 _ (List.mem_map_of_mem hv) _ (List.mem_map_of_mem hu)
      have hle : d v ≤ d last := by
        rcases List.mem_append.mp hv with hv | hv
        · exact le_of_lt ((List.pairwise_append.mp hc).2.2 v hv last (List.mem_singleton_self last))
        · rw [List.mem_singleton.mp hv]
      exact decide_eq_true (by omega)
    have hcount : c.length ≤ rank d (c ++ ys) u := by
      rw [rank, List.countP_append, List.countP_eq_length_filter, hnear]
      omega
    omega

end

end Lib.Nearest
