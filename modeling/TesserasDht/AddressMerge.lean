import TesserasDht.Routing

/-!
# Which addresses a merge keeps

The merge appends what is new, puts LAN addresses first, and cuts the end. So the addresses that came
last are the first to go.
-/

open Lib.Lists TesserasDht.Routing

namespace TesserasDht.AddressMerge

/-- The old addresses, and the new ones that are not among them. -/
def collected (old new : List SocketAddr) : List SocketAddr := old ++ new.filter fun a => a ∉ old

/-- How many addresses come before `a` once the LAN addresses are first. -/
def ahead (all : List SocketAddr) (a : SocketAddr) : Nat :=
  if isLanAddr a then (all.takeWhile (· ≠ a)).countP isLanAddr
  else all.countP isLanAddr + (all.takeWhile (· ≠ a)).countP fun b => !isLanAddr b

/-- Each new address has fewer than `MAX_PEER_ADDRS` before it. -/
def HasRoom (old new : List SocketAddr) : Prop := ∀ a ∈ new, ahead (collected old new) a < maxPeerAddrs

instance (old new : List SocketAddr) : Decidable (HasRoom old new) := by
  unfold HasRoom; infer_instance

/-! ## The merged list -/

theorem foldl_new {new : List SocketAddr} (hnew : new.Nodup) (old : List SocketAddr) :
    new.foldl (fun acc a => if a ∈ acc then acc else acc ++ [a]) old = collected old new := by
  induction new generalizing old with
  | nil => simp [collected]
  | cons a rest ih =>
    obtain ⟨ha, hrest⟩ := List.nodup_cons.mp hnew
    rw [List.foldl_cons, ih hrest]
    by_cases hmem : a ∈ old
    · rw [if_pos hmem, collected, collected, List.filter_cons_of_neg (by simp [hmem])]
    · -- `a` is not among the rest, so the rest is filtered as before.
      have hsame : (rest.filter fun b => b ∉ old ++ [a]) = rest.filter fun b => b ∉ old := by
        refine List.filter_congr fun b hb => ?_
        have hne : b ≠ a := fun he => ha (he ▸ hb)
        simp [hne]
      rw [if_neg hmem, collected, collected, hsame, List.filter_cons_of_pos (by simp [hmem])]
      simp

theorem mem_collected {old new : List SocketAddr} {a : SocketAddr} (h : a ∈ new) : a ∈ collected old new := by
  rw [collected, List.mem_append, List.mem_filter]
  by_cases hmem : a ∈ old
  · exact Or.inl hmem
  · exact Or.inr ⟨h, by simpa using hmem⟩

theorem mem_sorted_take_iff {all : List SocketAddr} {a : SocketAddr} (h : a ∈ all) (n : Nat) :
    a ∈ (all.insertionSort fun a b => (!isLanAddr a) ≤ (!isLanAddr b)).take n ↔ ahead all a < n := by
  have hsorted : a ∈ all.filter isLanAddr ++ all.filter fun b => !isLanAddr b := by
    cases hlan : isLanAddr a <;> simp [h, hlan]
  rw [insertionSort_class, mem_take_iff_takeWhile hsorted, ahead]
  cases hlan : isLanAddr a with
  | true =>
    have hmem : a ∈ all.filter isLanAddr := List.mem_filter.mpr ⟨h, hlan⟩
    have hlt := (mem_take_iff_takeWhile hmem (all.filter isLanAddr).length).mp (by rwa [List.take_length])
    rw [if_pos rfl, List.takeWhile_append, if_neg (by omega), takeWhile_filter isLanAddr hlan,
      List.countP_eq_length_filter]
  | false =>
    have hpass : ∀ b ∈ all.filter isLanAddr, decide (b ≠ a) = true := by
      intro b hb
      refine decide_eq_true fun he => ?_
      rw [he, List.mem_filter, hlan] at hb
      cases hb.2
    rw [if_neg (by decide), List.takeWhile_append_of_pos hpass, List.length_append,
      takeWhile_filter (fun b => !isLanAddr b) (by simp [hlan]), List.countP_eq_length_filter,
      List.countP_eq_length_filter]

theorem mergeAddresses_keeps_iff {old new : List SocketAddr} (hnew : new.Nodup) :
    (∀ a ∈ new, a ∈ mergeAddresses old new) ↔ HasRoom old new := by
  refine forall₂_congr fun a ha => ?_
  rw [mergeAddresses, foldl_new hnew]
  exact mem_sorted_take_iff (mem_collected ha) maxPeerAddrs

/-- The handler passes one address. An external one is kept if there is room, a LAN one also if an
external one can go. -/
theorem one_address_kept_iff {old : List SocketAddr} {a : SocketAddr} (h : a ∉ old) :
    a ∈ mergeAddresses old [a] ↔
      (if isLanAddr a then old.countP isLanAddr else old.length) < maxPeerAddrs := by
  have hall : collected old [a] = old ++ [a] := by simp [collected, h]
  have hfirst : (old ++ [a]).takeWhile (· ≠ a) = old := by
    have hpass : ∀ b ∈ old, decide (b ≠ a) = true := fun b hb => decide_eq_true fun he => h (he ▸ hb)
    rw [List.takeWhile_append_of_pos hpass]
    simp
  rw [mergeAddresses, foldl_new (List.nodup_singleton a), hall, mem_sorted_take_iff (by simp), ahead, hfirst]
  cases hlan : isLanAddr a with
  | true => rfl
  | false =>
    have hcount := List.length_eq_countP_add_countP isLanAddr (l := old)
    have hlast : (old ++ [a]).countP isLanAddr = old.countP isLanAddr := by simp [hlan]
    rw [if_neg (by decide), if_neg (by decide), hlast]
    simp only [Bool.not_eq_true, Bool.decide_eq_false] at hcount
    omega

/-! ## The update of a bucket -/

theorem insert_keeps_addresses_iff (b : KBucket) (now : Nat) (node : NodeInfo)
    (hstored : node.nodeId ∈ ids b.nodes) (hnew : node.addresses.Nodup) :
    ∃ b' old entry, b.insert now node = .ok (b', .updated) ∧
      b.nodes.find? (fun n => n.nodeId = node.nodeId) = some old ∧
      b'.nodes.find? (fun n => n.nodeId = node.nodeId) = some entry ∧
      ((∀ a ∈ node.addresses, a ∈ entry.addresses) ↔ HasRoom old.addresses node.addresses) := by
  obtain ⟨old, hold⟩ : ∃ old, b.nodes.find? (fun n => n.nodeId = node.nodeId) = some old := by
    rw [← Option.ne_none_iff_exists']
    exact fun hnone => (find_none_iff b.nodes node.nodeId).mp hnone hstored
  unfold KBucket.insert
  rw [hold]
  refine ⟨_, old, { old.markSeen now with addresses := mergeAddresses old.addresses node.addresses }, rfl, rfl, ?_,
    mergeAddresses_keeps_iff hnew⟩
  refine (find?_modifyFirst _ _ ?_ b.nodes).trans ?_
  · exact fun _ hn => hn
  · rw [hold]
    rfl

def external (n : UInt16) : SocketAddr := .v4 203 0 113 7 n

/-- Eight external ports, one after the other. -/
def wanderer : NodeInfo := { peerOf 1 with addresses := (List.range 8).map fun i => external (4000 + UInt16.ofNat i) }

def wandererBucket : KBucket := { KBucket.new 0 20 with nodes := [wanderer] }

theorem insert_keeps_addresses_iff_lan :
    ∃ b' entry, wandererBucket.insert 1 (peerOf 1) = .ok (b', .updated) ∧
      b'.nodes.find? (fun n => n.nodeId = (peerOf 1).nodeId) = some entry ∧
      ∀ a ∈ (peerOf 1).addresses, a ∈ entry.addresses := by
  obtain ⟨b', old, entry, hins, hold, hentry, hiff⟩ :=
    insert_keeps_addresses_iff wandererBucket 1 (peerOf 1) (by decide) (by decide)
  have hfirst : wandererBucket.nodes.find? (fun n => n.nodeId = (peerOf 1).nodeId) = some wanderer := by decide
  rw [hfirst, Option.some.injEq] at hold
  exact ⟨b', entry, hins, hentry, hiff.mpr (hold ▸ by decide)⟩

/-- The ninth is not kept, and neither is any later one. -/
theorem ninth_address_is_dropped :
    ∃ b', wandererBucket.insert 1 { peerOf 1 with addresses := [external 4008] } = .ok (b', .updated) ∧
      ∀ n ∈ b'.nodes, external 4008 ∉ n.addresses :=
  ⟨_, rfl, by decide⟩

end TesserasDht.AddressMerge
