import Mathlib.Data.List.Basic

/-!
# Channels

A queue with room for so many messages, and the place for one answer.
-/

namespace Lib.Channels

/-- A bounded queue. -/
structure Channel (α : Type) where
  capacity : Nat
  items : List α
  bound : items.length ≤ capacity

namespace Channel

variable {α : Type}

def empty (capacity : Nat) : Channel α := ⟨capacity, [], Nat.zero_le _⟩

/-- A full channel takes nothing. -/
def send (c : Channel α) (a : α) : Option (Channel α) :=
  if h : c.items.length < c.capacity then
    some ⟨c.capacity, c.items ++ [a], by rw [List.length_append]; exact h⟩
  else
    none

def recv : Channel α → Option (α × Channel α)
  | ⟨_, [], _⟩ => none
  | ⟨capacity, a :: rest, h⟩ => some (a, ⟨capacity, rest, Nat.le_of_succ_le h⟩)

/-- The receiver is gone, and what was in the queue with it. -/
def close (c : Channel α) : Channel α := empty c.capacity

section

variable {c c' : Channel α} {a : α}

theorem send_eq (h : c.send a = some c') : c'.items = c.items ++ [a] ∧ c'.capacity = c.capacity := by
  unfold send at h
  split at h
  · cases h
    exact ⟨rfl, rfl⟩
  · cases h

theorem send_of_empty (h : c.items = []) (hcap : 0 < c.capacity) (a : α) : ∃ c', c.send a = some c' := by
  have hlt : c.items.length < c.capacity := by rwa [h]
  exact ⟨_, dif_pos hlt⟩

theorem recv_eq (h : c.recv = some (a, c')) : c.items = a :: c'.items ∧ c'.capacity = c.capacity := by
  obtain ⟨capacity, items, hbound⟩ := c
  cases items with
  | nil => cases h
  | cons b rest =>
    cases h
    exact ⟨rfl, rfl⟩

theorem recv_cons {rest : List α} (h : c.items = a :: rest) :
    ∃ c', c.recv = some (a, c') ∧ c'.items = rest := by
  obtain ⟨capacity, items, hbound⟩ := c
  cases h
  exact ⟨_, rfl, rfl⟩

end

@[simp] theorem items_empty (capacity : Nat) : (empty capacity : Channel α).items = [] := rfl

@[simp] theorem items_close (c : Channel α) : c.close.items = [] := rfl

end Channel

/-- The place for one answer. Its sender may be dropped before it sends one. -/
inductive Oneshot (α : Type)
  | pending
  | sent (a : α)
  | dropped

end Lib.Channels
