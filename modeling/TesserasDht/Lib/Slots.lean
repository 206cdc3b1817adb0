import Mathlib.Data.List.Nodup
import Mathlib.Data.List.Perm.Basic

/-!
# A bounded list with a replacement cache

At most `k` entries. What does not fit waits in a cache of at most `k`, the newest last, and takes
the place of an entry that is removed.
-/

namespace Lib

structure Slots (ι : Type) where
  nodes : List ι
  cache : List ι
deriving DecidableEq

namespace Slots

variable {ι : Type} [DecidableEq ι]

def insert (k : Nat) (s : Slots ι) (x : ι) : Slots ι :=
  if x ∈ s.nodes then s
  else if s.nodes.length < k then { s with nodes := s.nodes ++ [x] }
  else
    let cache := s.cache.filter (· ≠ x) ++ [x]
    { s with cache := cache.drop (cache.length - k) }

def evict (s : Slots ι) (failed x : ι) : Slots ι :=
  if failed ∈ s.nodes then
    { nodes := s.nodes.erase failed ++ [x], cache := s.cache.filter (· ≠ x) }
  else s

def remove (s : Slots ι) (x : ι) : Slots ι :=
  if x ∈ s.nodes then
    { nodes := s.nodes.erase x ++ s.cache.getLast?.toList, cache := s.cache.dropLast }
  else s

structure Wf (k : Nat) (s : Slots ι) : Prop where
  nodes_le : s.nodes.length ≤ k
  cache_le : s.cache.length ≤ k
  cache_full : s.cache ≠ [] → s.nodes.length = k
  cache_nodup : s.cache.Nodup
  apart : ∀ x ∈ s.cache, x ∉ s.nodes

variable {k : Nat} {s : Slots ι}

/-! ## Each operation keeps the shape -/

theorem Wf.insert (h : Wf k s) (x : ι) : Wf k (s.insert k x) := by
  unfold Slots.insert
  split_ifs with hmem hroom
  · exact h
  · -- There is room, so nothing waits.
    have hcache : s.cache = [] := by
      by_contra hne
      have := h.cache_full hne
      omega
    refine ⟨by simp; omega, by simp [hcache], by simp [hcache], by simp [hcache], by simp [hcache]⟩
  · have hk : s.nodes.length = k := by have := h.nodes_le; omega
    refine ⟨h.nodes_le, ?_, fun _ => hk, ?_, ?_⟩
    · simp only [List.length_drop]; omega
    · refine List.Nodup.sublist (List.drop_sublist _ _) ?_
      refine List.Nodup.append (h.cache_nodup.filter _) (List.nodup_singleton x) ?_
      intro y hy hyx
      simp_all
    · intro y hy
      have hy := List.mem_of_mem_drop hy
      rcases List.mem_append.mp hy with hy | hy
      · exact h.apart y (List.mem_of_mem_filter hy)
      · rw [List.mem_singleton.mp hy]; exact hmem

theorem Wf.evict (h : Wf k s) (failed x : ι) : Wf k (s.evict failed x) := by
  unfold Slots.evict
  split_ifs with hmem
  · have hlen := List.length_erase_add_one hmem
    refine ⟨?_, ?_, ?_, h.cache_nodup.filter _, ?_⟩
    · have := h.nodes_le; simp; omega
    · exact Nat.le_trans (List.length_filter_le _ _) h.cache_le
    · intro hne
      have : s.cache ≠ [] := fun e => hne (by simp [e])
      have := h.cache_full this
      simp; omega
    · intro y hy hyn
      obtain ⟨hyc, hyx⟩ := List.mem_filter.mp hy
      rcases List.mem_append.mp hyn with hyn | hyn
      · exact h.apart y hyc (List.mem_of_mem_erase hyn)
      · simp_all
  · exact h

theorem Wf.remove (h : Wf k s) (x : ι) : Wf k (s.remove x) := by
  unfold Slots.remove
  split_ifs with hmem
  · have hlen := List.length_erase_add_one hmem
    rcases List.eq_nil_or_concat s.cache with hc | ⟨cs, y, hc⟩
    · have := h.nodes_le
      exact ⟨by simp [hc]; omega, by simp [hc], by simp [hc], by simp [hc], by simp [hc]⟩
    · -- The newest of the cache takes the free place.
      rw [List.concat_eq_append] at hc
      have hk : s.nodes.length = k := h.cache_full (by simp [hc])
      have hnodup := h.cache_nodup
      have hle := h.cache_le
      rw [hc] at hnodup hle
      rw [List.nodup_append] at hnodup
      refine ⟨by simp [hc]; omega, by simp [hc] at hle ⊢; omega, fun _ => by simp [hc]; omega,
        by simpa [hc] using hnodup.1, ?_⟩
      intro z hz hzn
      simp only [hc, List.dropLast_concat, List.getLast?_append, List.getLast?_singleton,
        Option.some_or, Option.toList_some, List.mem_append, List.mem_singleton] at hz hzn
      rcases hzn with hzn | rfl
      · exact h.apart z (by simp [hc, hz]) (List.mem_of_mem_erase hzn)
      · exact hnodup.2.2 z hz z (by simp) rfl
  · exact h

/-! ## No entry appears from nowhere -/

theorem mem_insert {x y : ι} (h : y ∈ (s.insert k x).nodes ∨ y ∈ (s.insert k x).cache) :
    y = x ∨ y ∈ s.nodes ∨ y ∈ s.cache := by
  unfold Slots.insert at h
  split_ifs at h
  · exact Or.inr h
  · simp only [List.mem_append, List.mem_singleton] at h
    tauto
  · rcases h with h | h
    · exact Or.inr (Or.inl h)
    · rcases List.mem_append.mp (List.mem_of_mem_drop h) with h | h
      · exact Or.inr (Or.inr (List.mem_of_mem_filter h))
      · exact Or.inl (List.mem_singleton.mp h)

theorem mem_evict {failed x y : ι} (h : y ∈ (s.evict failed x).nodes ∨ y ∈ (s.evict failed x).cache) :
    (y = x ∧ failed ∈ s.nodes) ∨ y ∈ s.nodes ∨ y ∈ s.cache := by
  unfold Slots.evict at h
  split_ifs at h with hmem
  · rcases h with h | h
    · rcases List.mem_append.mp h with h | h
      · exact Or.inr (Or.inl (List.mem_of_mem_erase h))
      · exact Or.inl ⟨List.mem_singleton.mp h, hmem⟩
    · exact Or.inr (Or.inr (List.mem_of_mem_filter h))
  · exact Or.inr h

theorem mem_remove {x y : ι} (h : y ∈ (s.remove x).nodes ∨ y ∈ (s.remove x).cache) :
    y ∈ s.nodes ∨ y ∈ s.cache := by
  unfold Slots.remove at h
  split_ifs at h
  · rcases h with h | h
    · rcases List.mem_append.mp h with h | h
      · exact Or.inl (List.mem_of_mem_erase h)
      · exact Or.inr (List.mem_of_getLast? (by simpa using h))
    · exact Or.inr (List.dropLast_subset _ h)
  · exact h

/-! ## Distinct entries -/

theorem nodup_insert (h : s.nodes.Nodup) (x : ι) : (s.insert k x).nodes.Nodup := by
  unfold Slots.insert
  split_ifs with hmem
  · exact h
  · exact List.nodup_append.mpr ⟨h, List.nodup_singleton x, by rintro a ha b hb rfl; simp_all⟩
  · exact h

theorem nodup_evict (h : s.nodes.Nodup) {failed x : ι} (hx : failed ∈ s.nodes → x ∉ s.nodes) :
    (s.evict failed x).nodes.Nodup := by
  unfold Slots.evict
  split_ifs with hmem
  · refine List.nodup_append.mpr ⟨h.erase _, List.nodup_singleton x, ?_⟩
    rintro a ha b hb rfl
    rw [List.mem_singleton.mp hb] at ha
    exact hx hmem (List.mem_of_mem_erase ha)
  · exact h

theorem nodup_remove (hwf : Wf k s) (h : s.nodes.Nodup) (x : ι) : (s.remove x).nodes.Nodup := by
  unfold Slots.remove
  split_ifs with hmem
  · refine List.nodup_append.mpr ⟨h.erase _, ?_, ?_⟩
    · cases s.cache.getLast? <;> simp
    · rintro a ha b hb rfl
      exact hwf.apart a (List.mem_of_getLast? (by simpa using hb)) (List.mem_of_mem_erase ha)
  · exact h

/-! ## One change -/

/-- One operation: `P` holds of what it may insert, `E` of what it may put in a failed entry's
place. -/
inductive Change (k : Nat) (P : ι → Prop) (E : ι → ι → Prop) (s : Slots ι) : Slots ι → Prop
  | same : Change k P E s s
  | insert {x : ι} (h : P x) : Change k P E s (s.insert k x)
  | evict {failed x : ι} (h : E failed x) : Change k P E s (s.evict failed x)
  | remove (x : ι) : Change k P E s (s.remove x)

variable {P : ι → Prop} {E : ι → ι → Prop} {s' : Slots ι}

theorem Change.wf (h : Change k P E s s') (hwf : Wf k s) : Wf k s' := by
  cases h with
  | same => exact hwf
  | insert _ => exact hwf.insert _
  | evict _ => exact hwf.evict _ _
  | remove x => exact hwf.remove x

theorem Change.mem (h : Change k P E s s') {y : ι} (hy : y ∈ s'.nodes ∨ y ∈ s'.cache) :
    P y ∨ (∃ failed ∈ s.nodes, E failed y) ∨ y ∈ s.nodes ∨ y ∈ s.cache := by
  cases h with
  | same => exact Or.inr (Or.inr hy)
  | insert hP =>
    rcases mem_insert hy with rfl | hy
    · exact Or.inl hP
    · exact Or.inr (Or.inr hy)
  | evict hE =>
    rcases mem_evict hy with ⟨rfl, hf⟩ | hy
    · exact Or.inr (Or.inl ⟨_, hf, hE⟩)
    · exact Or.inr (Or.inr hy)
  | remove x => exact Or.inr (Or.inr (mem_remove hy))

theorem Change.nodup (h : Change k P E s s') (hwf : Wf k s) (hs : s.nodes.Nodup)
    (hE : ∀ failed x, E failed x → failed ∈ s.nodes → x ∉ s.nodes) : s'.nodes.Nodup := by
  cases h with
  | same => exact hs
  | insert _ => exact nodup_insert hs _
  | evict h => exact nodup_evict hs (hE _ _ h)
  | remove x => exact nodup_remove hwf hs x

end Slots

end Lib
