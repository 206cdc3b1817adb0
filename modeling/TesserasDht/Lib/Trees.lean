import TesserasDht.Lib.Files

/-!
# Directory trees

Files under paths, and the directories that lead to them. A walk that goes down a fixed number of levels
meets each file of that depth once.
-/

open Lib.Lists

namespace Lib.Files

/-! ## Files under other names -/

section

variable {ν ν' β : Type}

def File.rename (g : ν → ν') (f : File ν β) : File ν' β := ⟨g f.name, f.id, f.content⟩

namespace Dir

theorem ext_of {d d' : Dir ν β} (hfiles : d.files = d'.files) (hid : d.nextId = d'.nextId) : d = d' := by
  cases d
  cases d'
  cases hfiles
  cases hid
  rfl

variable (g : ν → ν') (hg : Function.Injective g)

def rename (d : Dir ν β) : Dir ν' β where
  files := d.files.map (File.rename g)
  nextId := d.nextId
  names := by
    rw [List.map_map]
    change (d.files.map (g ∘ File.name)).Nodup
    rw [← List.map_map]
    exact d.names.map hg
  ids := by
    rw [List.map_map]
    exact d.ids
  fresh := by
    intro f hf
    obtain ⟨f', hf', rfl⟩ := List.mem_map.mp hf
    exact d.fresh f' hf'

variable {g hg} {d : Dir ν β} {n : ν}

theorem mapContent_rename (h : File ν β → List β) (h' : File ν' β → List β)
    (hsame : ∀ f, h' (f.rename g) = h f) : (d.rename g hg).mapContent h' = (d.mapContent h).rename g hg := by
  refine ext_of ?_ rfl
  simp only [mapContent, rename, List.map_map]
  refine List.map_congr_left fun f _ => ?_
  simp only [Function.comp_apply, hsame]
  rfl

theorem write_rename (id : Nat) (data : List β) :
    (d.rename g hg).write id data = (d.write id data).rename g hg :=
  mapContent_rename _ _ fun _ => rfl

variable [DecidableEq ν] [DecidableEq ν']

theorem lookup_rename (n : ν) : (d.rename g hg).lookup (g n) = (d.lookup n).map (File.rename g) := by
  cases hn : d.lookup n with
  | none =>
    refine lookup_none.mpr fun f hf => ?_
    obtain ⟨f', hf', rfl⟩ := List.mem_map.mp hf
    exact fun h => lookup_none.mp hn f' hf' (hg h)
  | some f =>
    obtain ⟨hf, rfl⟩ := lookup_some.mp hn
    exact lookup_some.mpr ⟨List.mem_map_of_mem hf, rfl⟩

theorem create_rename (n : ν) :
    (d.rename g hg).create (g n) = ((d.create n).1.rename g hg, (d.create n).2) := by
  have hlookup : (d.rename g hg).lookup (g n) = (d.lookup n).map (File.rename g) := lookup_rename n
  cases hn : d.lookup n with
  | none =>
    rw [hn] at hlookup
    rw [create_of_none hlookup, create_of_none hn]
    refine Prod.ext (ext_of ?_ rfl) rfl
    simp [add, rename, File.rename]
  | some f =>
    rw [hn] at hlookup
    rw [create_of_some hlookup, create_of_some hn]
    refine Prod.ext (mapContent_rename _ _ fun f' => ?_) rfl
    simp [File.rename, hg.eq_iff]

theorem unlink_rename (n : ν) : (d.rename g hg).unlink (g n) = (d.unlink n).rename g hg := by
  refine ext_of ?_ rfl
  simp only [unlink, rename, List.filter_map]
  congr 1
  refine List.filter_congr fun f _ => ?_
  simp [File.rename, hg.eq_iff]

end Dir

end

end Lib.Files

namespace Lib.Trees

open Lib.Files

/-- The directories below a root, and the files with their paths from the root. -/
structure Tree (κ β : Type) where
  dirs : List (List κ)
  files : Dir (List κ) β

namespace Tree

variable {κ β : Type} [DecidableEq κ]

/-! ## Operations -/

def empty : Tree κ β := ⟨[], .empty⟩

def isDir (t : Tree κ β) (p : List κ) : Bool := p = [] ∨ p ∈ t.dirs

def «exists» (t : Tree κ β) (p : List κ) : Bool := t.isDir p || (t.files.lookup p).isSome

def addDir (t : Tree κ β) (p : List κ) : Tree κ β :=
  if p ∈ t.dirs then t else { t with dirs := t.dirs ++ [p] }

def makeDirs (t : Tree κ β) (p : List κ) : Tree κ β := p.inits.tail.foldl addDir t

/-- The directory and those that lead to it, unless a file is in the way. -/
def createDirAll (t : Tree κ β) (p : List κ) : Option (Tree κ β) :=
  if p.inits.any fun q => (t.files.lookup q).isSome then none else some (t.makeDirs p)

/-- `O_CREAT | O_TRUNC`, in a directory that exists. -/
def create (t : Tree κ β) (p : List κ) : Option (Tree κ β × Nat) :=
  if t.isDir p || !t.isDir p.dropLast then
    none
  else
    let (files, id) := t.files.create p
    some ({ t with files }, id)

def entries (t : Tree κ β) : List (List κ) := t.dirs ++ t.files.files.map File.name

/-- The names in a directory. -/
def readDir (t : Tree κ β) (p : List κ) : List κ :=
  t.entries.filterMap fun q => if q.dropLast = p then q.getLast? else none

/-- A directory is there once, and every file and every directory is in a directory. -/
structure Sound (t : Tree κ β) : Prop where
  nodup : t.dirs.Nodup
  proper : [] ∉ t.dirs
  parents : ∀ p ∈ t.dirs, t.isDir p.dropLast = true
  files : ∀ f ∈ t.files.files, f.name ≠ [] ∧ t.isDir f.name.dropLast = true
  apart : ∀ f ∈ t.files.files, f.name ∉ t.dirs

/-! ## What they change -/

section

variable {t : Tree κ β} {p : List κ}

theorem isDir_iff : t.isDir p = true ↔ p = [] ∨ p ∈ t.dirs := decide_eq_true_iff

theorem empty_sound : Sound (empty : Tree κ β) :=
  ⟨List.nodup_nil, List.not_mem_nil, by rintro p ⟨⟩, by rintro f ⟨⟩, by rintro f ⟨⟩⟩

theorem mem_addDir {q : List κ} : q ∈ (t.addDir p).dirs ↔ q ∈ t.dirs ∨ q = p := by
  unfold addDir
  split_ifs with hp
  · exact ⟨Or.inl, fun h => h.elim id fun heq => heq ▸ hp⟩
  · simp

theorem addDir_files : (t.addDir p).files = t.files := by
  unfold addDir
  split_ifs <;> rfl

theorem isDir_addDir {q : List κ} (h : t.isDir q = true) : (t.addDir p).isDir q = true :=
  isDir_iff.mpr ((isDir_iff.mp h).imp_right fun hq => mem_addDir.mpr (Or.inl hq))

theorem Sound.addDir (h : Sound t) (hp : p ≠ []) (hparent : t.isDir p.dropLast = true)
    (hfree : ∀ f ∈ t.files.files, f.name ≠ p) : Sound (t.addDir p) where
  nodup := by
    unfold Tree.addDir
    split_ifs with hmem
    · exact h.nodup
    · exact List.nodup_append.mpr ⟨h.nodup, List.nodup_singleton p, by
        rintro q hq _ hqp rfl
        exact hmem (List.mem_singleton.mp hqp ▸ hq)⟩
  proper hmem := (mem_addDir.mp hmem).elim h.proper fun heq => hp heq.symm
  parents q hq := by
    rcases mem_addDir.mp hq with hq | rfl
    · exact isDir_addDir (h.parents q hq)
    · exact isDir_addDir hparent
  files f hf := by
    rw [addDir_files] at hf
    exact ⟨(h.files f hf).1, isDir_addDir (h.files f hf).2⟩
  apart f hf hmem := by
    rw [addDir_files] at hf
    exact (mem_addDir.mp hmem).elim (h.apart f hf) (hfree f hf)

theorem makeDirs_concat (x : κ) : t.makeDirs (p ++ [x]) = (t.makeDirs p).addDir (p ++ [x]) := by
  have hinits : (p ++ [x]).inits.tail = p.inits.tail ++ [p ++ [x]] := by
    rw [List.inits_append, List.tail_append_of_ne_nil]
    · rfl
    · cases p <;> simp
  rw [makeDirs, hinits, List.foldl_append]
  rfl

/-- What is made: the directory and those that lead to it. -/
theorem makeDirs_spec (h : Sound t) (hfree : ∀ q, q <+: p → ∀ f ∈ t.files.files, f.name ≠ q) :
    Sound (t.makeDirs p) ∧ (t.makeDirs p).isDir p = true ∧ (t.makeDirs p).files = t.files ∧
      ∀ q ∈ (t.makeDirs p).dirs, q ∈ t.dirs ∨ q <+: p := by
  induction p using List.reverseRecOn with
  | nil => exact ⟨h, rfl, rfl, fun q hq => Or.inl hq⟩
  | append_singleton p x ih =>
    obtain ⟨hsound, hdir, hfiles, hmem⟩ := ih fun q hq => hfree q (hq.trans (List.prefix_append p [x]))
    rw [makeDirs_concat]
    refine ⟨hsound.addDir (by simp) (by rwa [List.dropLast_concat]) ?_, ?_, addDir_files.trans hfiles, ?_⟩
    · rw [hfiles]
      exact hfree _ (List.prefix_refl _)
    · exact isDir_iff.mpr (Or.inr (mem_addDir.mpr (Or.inr rfl)))
    · intro q hq
      rcases mem_addDir.mp hq with hq | rfl
      · exact (hmem q hq).imp_right fun hprefix => hprefix.trans (List.prefix_append p [x])
      · exact Or.inr (List.prefix_refl _)

/-- Other files do not matter to the directories, as long as they are in one. -/
theorem Sound.withFiles (h : Sound t) {files : Dir (List κ) β}
    (hfiles : ∀ f ∈ files.files, (∃ f' ∈ t.files.files, f.name = f'.name) ∨
      f.name ∉ t.dirs ∧ f.name ≠ [] ∧ t.isDir f.name.dropLast = true) : Sound { t with files } where
  nodup := h.nodup
  proper := h.proper
  parents := h.parents
  files f hf := by
    rcases hfiles f hf with ⟨f', hf', hname⟩ | ⟨-, hne, hparent⟩
    · rw [hname]
      exact h.files f' hf'
    · exact ⟨hne, hparent⟩
  apart f hf := by
    rcases hfiles f hf with ⟨f', hf', hname⟩ | ⟨hnot, -⟩
    · rw [hname]
      exact h.apart f' hf'
    · exact hnot

end

/-! ## Walks -/

/-- The weights of what is found `n` levels of directories below, where nothing on the way is hidden. -/
def walk (t : Tree κ β) (hidden : List κ → Bool) (w : List κ → Nat) : Nat → List κ → Nat
  | 0, p =>
    if hidden p then 0 else ((t.readDir p).map fun x => if hidden (p ++ [x]) then 0 else w (p ++ [x])).sum
  | n + 1, p =>
    if hidden p then 0
    else ((t.readDir p).map fun x => if t.isDir (p ++ [x]) then walk t hidden w n (p ++ [x]) else 0).sum

/-- Nothing from so far down to the path is hidden. -/
def clear (hidden : List κ → Bool) (k : Nat) (q : List κ) : Bool :=
  (List.range (q.length - k + 1)).all fun i => !hidden (q.take (k + i))

omit [DecidableEq κ] in
theorem concat_of_dropLast {p q : List κ} {x : κ} (h : q.dropLast = p) (hx : q.getLast? = some x) :
    q = p ++ [x] := by
  rw [← h]
  exact (List.dropLast_append_getLast? x hx).symm

/-- A sum over a directory is one over the paths that are right below it. -/
theorem sum_readDir (t : Tree κ β) (p : List κ) (w : List κ → Nat) :
    ((t.readDir p).map fun x => w (p ++ [x])).sum =
      ((t.entries.filter fun q => q ≠ [] ∧ q.dropLast = p).map w).sum := by
  unfold readDir
  induction t.entries with
  | nil => rfl
  | cons q rest ih =>
    by_cases hq : q.dropLast = p
    · cases hx : q.getLast? with
      | none =>
        obtain rfl := List.getLast?_eq_none_iff.mp hx
        simp [ih]
      | some x =>
        have hne : q ≠ [] := by
          rintro rfl
          cases hx
        have hqx := concat_of_dropLast hq hx
        rw [List.filterMap_cons_some (by rw [if_pos hq, hx]), List.filter_cons_of_pos (by simp [hne, hq])]
        simp only [List.map_cons, List.sum_cons, ih, ← hqx]
    · rw [List.filterMap_cons_none (by rw [if_neg hq]), List.filter_cons_of_neg (by simp [hq]), ih]

/-- A sum over a list, first over the values of a key. -/
theorem sum_by_key {α γ : Type} [DecidableEq γ] (key : α → γ) (w : α → Nat) {keys : List γ} (hkeys : keys.Nodup)
    (l : List α) :
    (keys.map fun k => ((l.filter fun a => key a = k).map w).sum).sum =
      ((l.filter fun a => key a ∈ keys).map w).sum := by
  induction keys with
  | nil => simp
  | cons k rest ih =>
    obtain ⟨hk, hrest⟩ := List.nodup_cons.mp hkeys
    rw [List.map_cons, List.sum_cons, ih hrest]
    clear ih
    induction l with
    | nil => rfl
    | cons a l ihl =>
      by_cases hak : key a = k
      · have hnot : key a ∉ rest := by rwa [hak]
        simp only [List.filter_cons, hak, hk, decide_true, decide_false, if_true, Bool.false_eq_true, if_false,
          List.mem_cons, true_or, List.map_cons, List.sum_cons]
        simp only [List.mem_cons] at ihl
        omega
      · by_cases hmem : key a ∈ rest
        · simp only [List.filter_cons, hak, hmem, decide_true, decide_false, if_true, Bool.false_eq_true, if_false,
            List.mem_cons, or_true, List.map_cons, List.sum_cons]
          simp only [List.mem_cons] at ihl
          omega
        · simp only [List.filter_cons, hak, hmem, decide_false, Bool.false_eq_true, if_false, List.mem_cons,
            or_self]
          simpa only [List.mem_cons] using ihl

/-- The files that are so deep below a directory. -/
def below (t : Tree κ β) (n : Nat) (p : List κ) : List (List κ) :=
  (t.files.files.map File.name).filter fun q => q.take p.length = p ∧ q.length = p.length + n + 1

theorem Sound.ancestors {t : Tree κ β} (h : Sound t) {p q : List κ} (hq : t.isDir q = true) (hne : p ≠ [])
    (hpath : p <+: q) : p ∈ t.dirs := by
  induction q using List.reverseRecOn with
  | nil => exact absurd (List.prefix_nil.mp hpath) hne
  | append_singleton q x ih =>
    have hmem : q ++ [x] ∈ t.dirs := by simpa [isDir] using hq
    rcases List.prefix_concat_iff.mp hpath with rfl | hshorter
    · exact hmem
    · have hparent := h.parents _ hmem
      rw [List.dropLast_concat] at hparent
      exact ih hparent hshorter

theorem Sound.leads {t : Tree κ β} (h : Sound t) {p q : List κ} (hq : q ∈ t.files.files.map File.name)
    (hne : p ≠ []) (hpath : p <+: q) (hlength : p.length < q.length) : p ∈ t.dirs := by
  obtain ⟨f, hf, rfl⟩ := List.mem_map.mp hq
  obtain ⟨hname, hparent⟩ := h.files f hf
  refine h.ancestors hparent hne (List.prefix_of_prefix_length_le hpath (List.dropLast_prefix _) ?_)
  rw [List.length_dropLast]
  omega

omit [DecidableEq κ] in
theorem child_iff {p q : List κ} : (q ≠ [] ∧ q.dropLast = p) ↔ q.take p.length = p ∧ q.length = p.length + 1 := by
  constructor
  · rintro ⟨hne, rfl⟩
    have hpos := List.length_pos_iff.mpr hne
    rw [List.length_dropLast]
    exact ⟨(List.dropLast_eq_take ..).symm, by omega⟩
  · rintro ⟨htake, hlength⟩
    refine ⟨by rintro rfl; simp at hlength, ?_⟩
    rw [List.dropLast_eq_take, hlength, Nat.add_sub_cancel]
    exact htake

section

variable {hidden : List κ → Bool} {w : List κ → Nat} {p q : List κ} {k : Nat}

omit [DecidableEq κ] in
theorem clear_succ (h : k < q.length) :
    clear hidden k q = (!hidden (q.take k) && clear hidden (k + 1) q) := by
  have hlength : q.length - k + 1 = q.length - (k + 1) + 1 + 1 := by omega
  rw [clear, clear, hlength, List.range_succ_eq_map, List.all_cons, List.all_map]
  simp only [Nat.add_zero, Function.comp_def, Nat.succ_eq_add_one, Nat.add_assoc, Nat.add_comm 1]

omit [DecidableEq κ] in
theorem clear_self : clear hidden q.length q = !hidden q := by
  simp [clear]

theorem sum_hidden (t : Tree κ β) (n : Nat) (hp : hidden p = true) :
    ((t.below n p).map fun q => if clear hidden p.length q then w q else 0).sum = 0 := by
  refine List.sum_eq_zero fun x hx => ?_
  obtain ⟨q, hq, rfl⟩ := List.mem_map.mp hx
  obtain ⟨htake, hlength⟩ := of_decide_eq_true (List.mem_filter.mp hq).2
  rw [clear_succ (by omega), htake, hp]
  rfl

/-- A walk that goes as deep as the directories do meets the files there. -/
theorem walk_eq {t : Tree κ β} (h : Sound t) {depth : Nat} (hdepth : ∀ p ∈ t.dirs, p.length ≤ depth) (n : Nat)
    (p : List κ) (hn : p.length + n = depth) :
    walk t hidden w n p = ((t.below n p).map fun q => if clear hidden p.length q then w q else 0).sum := by
  induction n generalizing p with
  | zero =>
    by_cases hp : hidden p = true
    · rw [walk, if_pos hp, sum_hidden t 0 hp]
    have hdirs : t.dirs.filter (fun q => q ≠ [] ∧ q.dropLast = p) = [] := by
      refine List.filter_eq_nil_iff.mpr fun q hq hchild => ?_
      have hlength := (child_iff.mp (of_decide_eq_true hchild)).2
      have hle := hdepth q hq
      omega
    rw [walk, if_neg hp, sum_readDir t p fun q => if hidden q then 0 else w q, entries, List.filter_append, hdirs,
      List.nil_append, below]
    simp only [child_iff, Nat.add_zero]
    congr 1
    refine List.map_congr_left fun q hq => ?_
    obtain ⟨htake, hlength⟩ := of_decide_eq_true (List.mem_filter.mp hq).2
    rw [clear_succ (by omega), htake, ← hlength, clear_self]
    cases hidden q <;> simp [hp]
  | succ n ih =>
    by_cases hp : hidden p = true
    · rw [walk, if_pos hp, sum_hidden t (n + 1) hp]
    have hfiles : (((t.files.files.map File.name).filter fun q => q ≠ [] ∧ q.dropLast = p).map
        fun q => if t.isDir q = true then walk t hidden w n q else 0).sum = 0 := by
      refine List.sum_eq_zero fun x hx => ?_
      obtain ⟨q, hq, rfl⟩ := List.mem_map.mp hx
      obtain ⟨f, hf, rfl⟩ := List.mem_map.mp (List.mem_of_mem_filter hq)
      exact if_neg (by simp [isDir, (h.files f hf).1, h.apart f hf])
    have hdirs : (t.dirs.filter fun q => q ≠ [] ∧ q.dropLast = p).map
        (fun q => if t.isDir q = true then walk t hidden w n q else 0) =
        (t.dirs.filter fun q => q ≠ [] ∧ q.dropLast = p).map fun q =>
          ((((t.files.files.map File.name).filter fun q' => q'.length = p.length + (n + 1) + 1).filter
            fun q' => q'.take (p.length + 1) = q).map
              fun q' => if clear hidden (p.length + 1) q' then w q' else 0).sum := by
      refine List.map_congr_left fun q hq => ?_
      obtain ⟨hmem, hchild⟩ := List.mem_filter.mp hq
      have hlength := (child_iff.mp (of_decide_eq_true hchild)).2
      rw [if_pos (by simp [isDir, hmem]), ih q (by omega), below, List.filter_filter, hlength]
      simp only [Nat.add_right_comm p.length 1 n, Nat.add_assoc, Bool.decide_and]
    have hbelow : (((t.files.files.map File.name).filter fun q => q.length = p.length + (n + 1) + 1).filter
        fun q => q.take (p.length + 1) ∈ t.dirs.filter fun q => q ≠ [] ∧ q.dropLast = p) = t.below (n + 1) p := by
      rw [List.filter_filter, below]
      refine List.filter_congr fun q hq => ?_
      rw [← Bool.decide_and, decide_eq_decide]
      simp only [decide_eq_true_eq, List.mem_filter, child_iff, List.take_take]
      have hmin : min p.length (p.length + 1) = p.length := by omega
      rw [hmin]
      constructor
      · rintro ⟨⟨-, htake, -⟩, hlength⟩
        exact ⟨htake, hlength⟩
      · rintro ⟨htake, hlength⟩
        have hshort : (q.take (p.length + 1)).length = p.length + 1 := by
          rw [List.length_take]
          omega
        -- the directory right below, on the way to the file
        have hdir := h.leads hq (p := q.take (p.length + 1)) (by rintro hnil; simp [hnil] at hshort)
          (List.take_prefix _ _) (by omega)
        exact ⟨⟨hdir, htake, hshort⟩, hlength⟩
    rw [walk, if_neg hp, sum_readDir t p fun q => if t.isDir q = true then walk t hidden w n q else 0, entries,
      List.filter_append, List.map_append, List.sum_append, hfiles, hdirs,
      sum_by_key (fun q' : List κ => q'.take (p.length + 1)) _ (h.nodup.filter _), Nat.add_zero]
    refine congrArg List.sum ((congrArg (List.map _) ?_).trans (List.map_congr_left fun q hq => ?_))
    · convert hbelow
    · obtain ⟨htake, hlength⟩ := of_decide_eq_true (List.mem_filter.mp hq).2
      rw [clear_succ (k := p.length) (by omega), htake]
      simp [hp]

end

end Tree

end Lib.Trees
