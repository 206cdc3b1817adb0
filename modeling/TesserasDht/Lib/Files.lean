import TesserasDht.Lib.Lists

/-!
# A directory of named files

A file that is open stays what it is when its name is removed, so each file has an id besides its
name. A write goes through the id.
-/

open Lib.Lists

namespace Lib.Files

variable {ν β : Type}

structure File (ν β : Type) where
  name : ν
  id : Nat
  content : List β
deriving DecidableEq, Repr

/-- No two files share a name or an id, and ids are given out in order. -/
structure Dir (ν β : Type) where
  files : List (File ν β)
  nextId : Nat
  names : (files.map File.name).Nodup
  ids : (files.map File.id).Nodup
  fresh : ∀ f ∈ files, f.id < nextId

namespace Dir

/-! ## Operations -/

def empty : Dir ν β := ⟨[], 0, by simp, by simp, by simp⟩

def mapContent (d : Dir ν β) (g : File ν β → List β) : Dir ν β where
  files := d.files.map fun f => { f with content := g f }
  nextId := d.nextId
  names := by rw [List.map_map]; exact d.names
  ids := by rw [List.map_map]; exact d.ids
  fresh := by
    intro f hf
    obtain ⟨f', hf', rfl⟩ := List.mem_map.mp hf
    exact d.fresh f' hf'

/-- `write_all` from the start of the open file `id`, which may have no name any more. -/
def write (d : Dir ν β) (id : Nat) (data : List β) : Dir ν β :=
  d.mapContent fun f => if f.id = id then data ++ f.content.drop data.length else f.content

/-- A new empty file. -/
def add (d : Dir ν β) (n : ν) (h : ∀ f ∈ d.files, f.name ≠ n) : Dir ν β where
  files := d.files ++ [⟨n, d.nextId, []⟩]
  nextId := d.nextId + 1
  names := nodup_map_concat _ _ _ d.names h
  ids := nodup_map_concat _ _ _ d.ids fun f hf => Nat.ne_of_lt (d.fresh f hf)
  fresh := by
    intro f hf
    rcases List.mem_append.mp hf with hf | hf
    · exact Nat.lt_succ_of_lt (d.fresh f hf)
    · rw [List.mem_singleton.mp hf]
      exact Nat.lt_succ_self _

theorem mem_mapContent {d : Dir ν β} {g : File ν β → List β} {f : File ν β}
    (h : f ∈ (d.mapContent g).files) :
    ∃ f' ∈ d.files, f = { f' with content := g f' } := by
  obtain ⟨f', hf', rfl⟩ := List.mem_map.mp h
  exact ⟨f', hf', rfl⟩

theorem mem_add {d : Dir ν β} {n : ν} (h : ∀ f ∈ d.files, f.name ≠ n) {f : File ν β} :
    f ∈ (d.add n h).files ↔ f ∈ d.files ∨ f = ⟨n, d.nextId, []⟩ := by
  simp [add]

/-- A sum over the files. -/
def total (w : File ν β → Nat) (d : Dir ν β) : Nat := (d.files.map w).sum

/-- The bytes of all files. -/
def size (d : Dir ν β) : Nat := total (fun f => f.content.length) d

theorem total_mapContent {w : File ν β → Nat} {d : Dir ν β} {g : File ν β → List β}
    (h : ∀ f ∈ d.files, w { f with content := g f } = w f) :
    total w (d.mapContent g) = total w d := by
  unfold total mapContent
  rw [List.map_map]
  congr 1
  exact List.map_congr_left h

theorem total_add (w : File ν β → Nat) (d : Dir ν β) (n : ν) (h : ∀ f ∈ d.files, f.name ≠ n) :
    total w (d.add n h) = total w d + w ⟨n, d.nextId, []⟩ := by
  simp [total, add]

theorem total_write (w : File ν β → Nat) {d : Dir ν β} {f : File ν β} (hf : f ∈ d.files)
    (data : List β) :
    total w (d.write f.id data) + w f =
      total w d + w { f with content := data ++ f.content.drop data.length } := by
  have hold := sum_map_eq_filter_add File.id w d.files d.ids f hf
  have hnew := sum_map_eq_filter_add File.id (fun g => w { g with
    content := if g.id = f.id then data ++ g.content.drop data.length else g.content })
    d.files d.ids f hf
  have hothers : (d.files.filter fun g => g.id ≠ f.id).map (fun g => w { g with
      content := if g.id = f.id then data ++ g.content.drop data.length else g.content }) =
      (d.files.filter fun g => g.id ≠ f.id).map w := by
    apply List.map_congr_left
    intro g hg
    have : g.id ≠ f.id := by simpa using (List.mem_filter.mp hg).2
    rw [if_neg this]
  rw [hothers, if_pos rfl] at hnew
  unfold total write mapContent
  rw [List.map_map]
  simp only [Function.comp_def]
  omega

theorem total_mono {w v : File ν β → Nat} {d : Dir ν β} (h : ∀ f ∈ d.files, w f ≤ v f) :
    total w d ≤ total v d := List.sum_le_sum h

variable [DecidableEq ν]

def lookup (d : Dir ν β) (n : ν) : Option (File ν β) := d.files.find? fun f => f.name = n

theorem lookup_some {d : Dir ν β} {n : ν} {f : File ν β} :
    d.lookup n = some f ↔ f ∈ d.files ∧ f.name = n := by
  unfold lookup
  constructor
  · intro h
    exact ⟨List.mem_of_find?_eq_some h, by simpa using List.find?_some h⟩
  · rintro ⟨hf, rfl⟩
    cases h : d.files.find? (fun g => decide (g.name = f.name)) with
    | none => simpa using List.find?_eq_none.mp h f hf
    | some g =>
      have hg : g.name = f.name := by simpa using List.find?_some h
      rw [List.inj_on_of_nodup_map d.names (List.mem_of_find?_eq_some h) hf hg]

theorem lookup_none {d : Dir ν β} {n : ν} : d.lookup n = none ↔ ∀ f ∈ d.files, f.name ≠ n := by
  simp [lookup]

/-- `O_CREAT | O_TRUNC`: a new empty file, or the file of that name made empty. -/
def create (d : Dir ν β) (n : ν) : Dir ν β × Nat :=
  match h : d.lookup n with
  | some f => (d.mapContent fun g => if g.name = n then [] else g.content, f.id)
  | none => (d.add n (lookup_none.mp h), d.nextId)

def unlink (d : Dir ν β) (n : ν) : Dir ν β where
  files := d.files.filter fun f => f.name ≠ n
  nextId := d.nextId
  names := d.names.sublist (List.Sublist.map _ List.filter_sublist)
  ids := d.ids.sublist (List.Sublist.map _ List.filter_sublist)
  fresh := fun f hf => d.fresh f (List.mem_filter.mp hf).1

/-! ## What they change -/

theorem create_of_some {d : Dir ν β} {n : ν} {f : File ν β} (h : d.lookup n = some f) :
    d.create n = (d.mapContent fun g => if g.name = n then [] else g.content, f.id) := by
  unfold create
  split
  next f' h' => cases h.symm.trans h'; rfl
  next h' => cases h.symm.trans h'

theorem create_of_none {d : Dir ν β} {n : ν} (h : d.lookup n = none) :
    d.create n = (d.add n (lookup_none.mp h), d.nextId) := by
  unfold create
  split
  next f' h' => cases h.symm.trans h'
  next h' => rfl

theorem mem_unlink {d : Dir ν β} {n : ν} {f : File ν β} :
    f ∈ (d.unlink n).files ↔ f ∈ d.files ∧ f.name ≠ n := by
  simp [unlink]

theorem lookup_create_write {d : Dir ν β} {n m : ν} {f : File ν β} (h : d.lookup n = some f)
    (hm : d.lookup m = none) (data : List β) :
    ((d.create m).1.write (d.create m).2 data).lookup n = some f := by
  obtain ⟨hf, hname⟩ := lookup_some.mp h
  rw [create_of_none hm]
  apply lookup_some.mpr
  refine ⟨List.mem_map.mpr ⟨f, (mem_add (lookup_none.mp hm)).mpr (Or.inl hf), ?_⟩, hname⟩
  dsimp only
  rw [if_neg (Nat.ne_of_lt (d.fresh f hf))]

theorem lookup_create_write_of_ne {d : Dir ν β} {n m : ν} (hm : d.lookup m = none) (hne : n ≠ m)
    (data : List β) : ((d.create m).1.write (d.create m).2 data).lookup n = d.lookup n := by
  cases h : d.lookup n with
  | some f => exact lookup_create_write h hm data
  | none =>
    rw [create_of_none hm]
    apply lookup_none.mpr
    intro f hf
    obtain ⟨f', hf', rfl⟩ := List.mem_map.mp hf
    rcases (mem_add (lookup_none.mp hm)).mp hf' with hf' | rfl
    · exact lookup_none.mp h f' hf'
    · exact hne.symm

theorem lookup_create_write_self {d : Dir ν β} {m : ν} (hm : d.lookup m = none) (data : List β) :
    ((d.create m).1.write (d.create m).2 data).lookup m = some ⟨m, d.nextId, data⟩ := by
  rw [create_of_none hm]
  apply lookup_some.mpr
  refine ⟨List.mem_map.mpr ⟨⟨m, d.nextId, []⟩, ?_, ?_⟩, rfl⟩
  · exact (mem_add (lookup_none.mp hm)).mpr (Or.inr rfl)
  · simp

theorem lookup_unlink_self (d : Dir ν β) (n : ν) : (d.unlink n).lookup n = none :=
  lookup_none.mpr fun _ hf => (mem_unlink.mp hf).2

theorem lookup_unlink_of_ne (d : Dir ν β) {n m : ν} (h : m ≠ n) :
    (d.unlink n).lookup m = d.lookup m := by
  unfold lookup unlink
  rw [List.find?_filter]
  congr 1
  funext f
  by_cases hf : f.name = m
  · simp [hf, h]
  · simp [hf]

theorem total_unlink {w : File ν β → Nat} {d : Dir ν β} {n : ν} {f : File ν β}
    (h : d.lookup n = some f) : total w d = total w (d.unlink n) + w f := by
  obtain ⟨hmem, rfl⟩ := lookup_some.mp h
  exact sum_map_eq_filter_add File.name w d.files d.names f hmem

theorem total_unlink_le (w : File ν β → Nat) (d : Dir ν β) (n : ν) :
    total w (d.unlink n) ≤ total w d :=
  (List.Sublist.map w List.filter_sublist).sum_le_sum fun _ _ => Nat.zero_le _

theorem unlink_of_none {d : Dir ν β} {n : ν} (h : d.lookup n = none) : d.unlink n = d := by
  have hfiles : d.files.filter (fun f => f.name ≠ n) = d.files := by
    apply List.filter_eq_self.mpr
    simpa using lookup_none.mp h
  cases d
  simp only [unlink, mk.injEq, and_true]
  exact hfiles

end Dir

end Lib.Files
