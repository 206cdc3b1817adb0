import TesserasDht.Chunks

/-!
# The quota holds

A file that was there at the start has an id below `firstId` and keeps its content. Every later file
of name `h` comes from a `put` that was charged `size h`. So a file weighs its length in the first
case and `size h` in the second, also while it is empty, and the counter covers the weight of all
files.
-/

open Lib.Runs Lib.Files Lib.Lists

namespace TesserasDht.ChunkQuota

open ChunkStore

/-! ## What threads hold of the counter -/

/-- Bytes of the counter that belong to no file. -/
def owed : Pc → Nat
  | .putCompare _ data _ => data.length
  | .putRollback _ data _ => data.length
  | .putCreate _ data => data.length
  | .deleteSub _ len => len
  | _ => 0

/-- Bytes that a `put` may still bring into the directory. They are decided when it reserves. -/
def claimed (maxStorage : Nat) : Pc → Nat
  | .putCompare _ data prev => if prev + data.length ≤ maxStorage then data.length else 0
  | .putCreate _ data => data.length
  | _ => 0

/-- What the next step of a thread takes from the counter. -/
def subtracts : Pc → Nat
  | .putRollback _ data _ => data.length
  | .deleteSub _ len => len
  | _ => 0

theorem subtracts_le_owed (pc : Pc) : subtracts pc ≤ owed pc := by
  cases pc <;> simp [subtracts, owed]

/-- No reservation overflows the counter. -/
def fits (s : System) : Action → Bool
  | .call _ => true
  | .run i => match s.threads[i]? with
    | some (.putReserve _ data) => s.store.storageUsed + data.length < wordSize
    | _ => true

/-! ## The invariant -/

section

variable (size : Hash → Nat) (firstId : Nat)

def weight (f : File Hash UInt8) : Nat :=
  if f.id < firstId then f.content.length else size f.name

/-- No file of the name is left from the start. -/
def NoOld (dir : Dir Hash UInt8) (h : Hash) : Prop := ∀ f ∈ dir.files, f.name = h → firstId ≤ f.id

def ThreadOk (dir : Dir Hash UInt8) : Pc → Prop
  | .putExists h data => data.length = size h
  | .putReserve h data => data.length = size h ∧ NoOld firstId dir h
  | .putCompare h data prev =>
    data.length = size h ∧ NoOld firstId dir h ∧ prev + data.length < wordSize
  | .putCreate h data => data.length = size h ∧ NoOld firstId dir h
  | .putWrite _ data id => firstId ≤ id ∧ id < dir.nextId ∧
      ∀ f ∈ dir.files, f.id = id → data.length = size f.name
  | .deleteUnlink h len => len ≤ size h ∧ ∀ f ∈ dir.files, f.name = h → len ≤ weight size firstId f
  | _ => True

structure DirOk (dir : Dir Hash UInt8) : Prop where
  first : firstId ≤ dir.nextId
  length_le : ∀ f ∈ dir.files, f.content.length ≤ weight size firstId f
  weight_le : ∀ f ∈ dir.files, weight size firstId f ≤ size f.name

structure Within (s : System) : Prop where
  word : s.store.storageUsed < wordSize
  ledger : Dir.total (weight size firstId) s.store.dir + (s.threads.map owed).sum ≤ s.store.storageUsed
  quota : Dir.total (weight size firstId) s.store.dir +
    (s.threads.map (claimed s.store.maxStorage)).sum ≤ s.store.maxStorage
  dir : DirOk size firstId s.store.dir
  threads : ∀ pc ∈ s.threads, ThreadOk size firstId s.store.dir pc

/-! ## Changes of the directory -/

/-- Each file was there with the same weight, or it is new. -/
structure Follows (dir dir' : Dir Hash UInt8) : Prop where
  nextId_le : dir.nextId ≤ dir'.nextId
  files : ∀ f' ∈ dir'.files, dir.nextId ≤ f'.id ∨ ∃ f ∈ dir.files,
    f.name = f'.name ∧ f.id = f'.id ∧ weight size firstId f = weight size firstId f'

variable {size firstId}

theorem Follows.refl (dir : Dir Hash UInt8) : Follows size firstId dir dir :=
  ⟨Nat.le_refl _, fun f hf => Or.inr ⟨f, hf, rfl, rfl, rfl⟩⟩

theorem weight_new {dir : Dir Hash UInt8} (hdir : firstId ≤ dir.nextId) {f : File Hash UInt8} (hf : dir.nextId ≤ f.id) :
    weight size firstId f = size f.name := if_neg (by omega)

/-- What one thread knows stays true when another one changes the directory. -/
theorem ThreadOk.follows {dir dir' : Dir Hash UInt8} (hdir : firstId ≤ dir.nextId)
    (hfol : Follows size firstId dir dir') {pc : Pc} (h : ThreadOk size firstId dir pc) :
    ThreadOk size firstId dir' pc := by
  have hold : ∀ n, NoOld firstId dir n → NoOld firstId dir' n := by
    intro n hn f' hf' hname
    rcases hfol.files f' hf' with hnew | ⟨f, hf, hfname, hfid, -⟩
    · omega
    · rw [← hfid]
      exact hn f hf (hfname.trans hname)
  cases pc with
  | putReserve n data => exact ⟨h.1, hold n h.2⟩
  | putCompare n data prev => exact ⟨h.1, hold n h.2.1, h.2.2⟩
  | putCreate n data => exact ⟨h.1, hold n h.2⟩
  | putWrite n data id =>
    refine ⟨h.1, Nat.lt_of_lt_of_le h.2.1 hfol.nextId_le, ?_⟩
    intro f' hf' hid
    rcases hfol.files f' hf' with hnew | ⟨f, hf, hfname, hfid, -⟩
    · have := h.2.1
      omega
    · rw [← hfname]
      exact h.2.2 f hf (hfid.trans hid)
  | deleteUnlink n len =>
    refine ⟨h.1, ?_⟩
    intro f' hf' hname
    rcases hfol.files f' hf' with hnew | ⟨f, hf, hfname, -, hweight⟩
    · rw [weight_new hdir hnew, hname]
      exact h.1
    · rw [← hweight]
      exact h.2 f hf (hfname.trans hname)
  | _ => exact h

theorem weight_mapContent {f : File Hash UInt8} {content : List UInt8}
    (hold : f.id < firstId → content = f.content) :
    weight size firstId { f with content } = weight size firstId f := by
  unfold weight
  dsimp only
  split
  next h => rw [hold h]
  next => rfl

section

variable {dir : Dir Hash UInt8} (hdir : DirOk size firstId dir)

include hdir

/-- A change of contents that leaves the files of the start alone. -/
theorem DirOk.mapContent {g : File Hash UInt8 → List UInt8}
    (hold : ∀ f ∈ dir.files, f.id < firstId → g f = f.content)
    (hnew : ∀ f ∈ dir.files, firstId ≤ f.id → (g f).length ≤ size f.name) :
    DirOk size firstId (dir.mapContent g) ∧ Follows size firstId dir (dir.mapContent g) ∧
      Dir.total (weight size firstId) (dir.mapContent g) = Dir.total (weight size firstId) dir := by
  refine ⟨⟨hdir.first, ?_, ?_⟩, ⟨Nat.le_refl _, ?_⟩, ?_⟩
  · intro f' hf'
    obtain ⟨f, hf, rfl⟩ := Dir.mem_mapContent hf'
    rw [weight_mapContent (hold f hf)]
    by_cases hid : f.id < firstId
    · dsimp only
      rw [hold f hf hid]
      exact hdir.length_le f hf
    · rw [weight, if_neg hid]
      exact hnew f hf (Nat.le_of_not_lt hid)
  · intro f' hf'
    obtain ⟨f, hf, rfl⟩ := Dir.mem_mapContent hf'
    rw [weight_mapContent (hold f hf)]
    exact hdir.weight_le f hf
  · intro f' hf'
    obtain ⟨f, hf, rfl⟩ := Dir.mem_mapContent hf'
    exact Or.inr ⟨f, hf, rfl, rfl, (weight_mapContent (hold f hf)).symm⟩
  · exact Dir.total_mapContent fun f hf => weight_mapContent (hold f hf)

theorem DirOk.add {h : Hash} (hfree : ∀ f ∈ dir.files, f.name ≠ h) :
    DirOk size firstId (dir.add h hfree) ∧ Follows size firstId dir (dir.add h hfree) ∧
      Dir.total (weight size firstId) (dir.add h hfree) =
        Dir.total (weight size firstId) dir + size h := by
  have hweight : weight size firstId ⟨h, dir.nextId, []⟩ = size h :=
    weight_new hdir.first (Nat.le_refl _)
  refine ⟨⟨Nat.le_succ_of_le hdir.first, ?_, ?_⟩, ⟨Nat.le_succ _, ?_⟩, ?_⟩
  · intro f hf
    rcases (Dir.mem_add hfree).mp hf with hf | rfl
    · exact hdir.length_le f hf
    · exact Nat.zero_le _
  · intro f hf
    rcases (Dir.mem_add hfree).mp hf with hf | rfl
    · exact hdir.weight_le f hf
    · exact Nat.le_of_eq hweight
  · intro f hf
    rcases (Dir.mem_add hfree).mp hf with hf | rfl
    · exact Or.inr ⟨f, hf, rfl, rfl, rfl⟩
    · exact Or.inl (Nat.le_refl _)
  · rw [Dir.total_add, hweight]

theorem DirOk.unlink (h : Hash) :
    DirOk size firstId (dir.unlink h) ∧ Follows size firstId dir (dir.unlink h) := by
  refine ⟨⟨hdir.first, ?_, ?_⟩, ⟨Nat.le_refl _, ?_⟩⟩
  · intro f hf
    exact hdir.length_le f (Dir.mem_unlink.mp hf).1
  · intro f hf
    exact hdir.weight_le f (Dir.mem_unlink.mp hf).1
  · intro f hf
    exact Or.inr ⟨f, (Dir.mem_unlink.mp hf).1, rfl, rfl, rfl⟩

end

/-! ## One step -/

variable {sha256 : Bytes → Hash} {b : Build} {s : System} {i : Nat}

theorem Within.owed_le (hs : Within size firstId s) {pc : Pc} (hi : s.threads[i]? = some pc) :
    owed pc ≤ s.store.storageUsed := by
  have := le_sum_map owed s.threads i pc hi
  have := hs.ledger
  omega

/-- A thread takes a step that adds nothing to what the counter and the quota must cover. -/
theorem Within.set (hs : Within size firstId s) {pc pc' : Pc} (hi : s.threads[i]? = some pc)
    (used : Nat) (dir : Dir Hash UInt8) (hword : used < wordSize)
    (hledger : Dir.total (weight size firstId) dir + owed pc' + s.store.storageUsed ≤
      Dir.total (weight size firstId) s.store.dir + owed pc + used)
    (hquota : Dir.total (weight size firstId) dir + claimed s.store.maxStorage pc' ≤
      Dir.total (weight size firstId) s.store.dir + claimed s.store.maxStorage pc)
    (hdir : DirOk size firstId dir) (hfol : Follows size firstId s.store.dir dir)
    (hpc : ThreadOk size firstId dir pc') :
    Within size firstId ⟨⟨s.store.maxStorage, used, dir⟩, s.threads.set i pc'⟩ := by
  refine ⟨hword, ?_, ?_, hdir, ?_⟩
  · have := sum_map_set owed s.threads i pc pc' hi
    have := hs.ledger
    dsimp only
    omega
  · have := sum_map_set (claimed s.store.maxStorage) s.threads i pc pc' hi
    have := hs.quota
    dsimp only
    omega
  · intro qc hqc
    rcases List.mem_or_eq_of_mem_set hqc with hqc | rfl
    · exact (hs.threads qc hqc).follows hs.dir.first hfol
    · exact hpc

theorem Within.goto (hs : Within size firstId s) {pc pc' : Pc} (hi : s.threads[i]? = some pc)
    (howed : owed pc' ≤ owed pc)
    (hclaimed : claimed s.store.maxStorage pc' ≤ claimed s.store.maxStorage pc)
    (hpc : ThreadOk size firstId s.store.dir pc') :
    Within size firstId ⟨s.store, s.threads.set i pc'⟩ :=
  hs.set hi s.store.storageUsed s.store.dir hs.word (by omega) (by omega) hs.dir (Follows.refl _) hpc

theorem Within.release (hs : Within size firstId s) {pc pc' : Pc} (hi : s.threads[i]? = some pc)
    (howed : owed pc' = 0) (hclaimed : claimed s.store.maxStorage pc' = 0)
    (hpc : ThreadOk size firstId s.store.dir pc') :
    Within size firstId ⟨s.store.release (owed pc), s.threads.set i pc'⟩ := by
  have hle := hs.owed_le hi
  have hword := hs.word
  simp only [ChunkStore.release, fetchSub_of_le hle hword]
  exact hs.set hi _ s.store.dir (by omega) (by omega) (by omega) hs.dir (Follows.refl _) hpc

/-- A reservation that the quota allows is within it, because the counter covers everything else. -/
theorem Within.reserve (hs : Within size firstId s) {h : Hash} {data : Bytes}
    (hi : s.threads[i]? = some (.putReserve h data))
    (hfits : s.store.storageUsed + data.length < wordSize) :
    Within size firstId ⟨s.store.reserve data.length,
      s.threads.set i (.putCompare h data s.store.storageUsed)⟩ := by
  obtain ⟨hsize, hnoOld⟩ := hs.threads _ (List.mem_of_getElem? hi)
  have howed := sum_map_set owed s.threads i _ (.putCompare h data s.store.storageUsed) hi
  have hclaimed := sum_map_set (claimed s.store.maxStorage) s.threads i _
    (.putCompare h data s.store.storageUsed) hi
  have hledger := hs.ledger
  have hquota := hs.quota
  have hcover : (s.threads.map (claimed s.store.maxStorage)).sum ≤ (s.threads.map owed).sum := by
    apply List.sum_le_sum
    intro pc _
    cases pc <;> simp only [claimed, owed] <;> (try split) <;> omega
  simp only [owed, claimed] at howed hclaimed
  simp only [ChunkStore.reserve, fetchAdd_of_lt hfits]
  refine ⟨hfits, ?_, ?_, hs.dir, ?_⟩
  · dsimp only
    omega
  · dsimp only
    split at hclaimed <;> omega
  · intro qc hqc
    rcases List.mem_or_eq_of_mem_set hqc with hqc | rfl
    · exact hs.threads qc hqc
    · exact ⟨hsize, hnoOld, hfits⟩

theorem Within.create (hs : Within size firstId s) {h : Hash} {data : Bytes}
    (hi : s.threads[i]? = some (.putCreate h data)) :
    Within size firstId ⟨(advance sha256 b s.store (.putCreate h data)).1,
      s.threads.set i (advance sha256 b s.store (.putCreate h data)).2⟩ := by
  obtain ⟨hsize, hnoOld⟩ := hs.threads _ (List.mem_of_getElem? hi)
  cases hf : s.store.dir.lookup h with
  | none =>
    have hfree := Dir.lookup_none.mp hf
    obtain ⟨hdir, hfol, htotal⟩ := hs.dir.add hfree
    simp only [advance, Dir.create_of_none hf]
    apply hs.set hi s.store.storageUsed _ hs.word _ _ hdir hfol
    · refine ⟨hs.dir.first, Nat.lt_succ_self _, ?_⟩
      intro f hmem hid
      rcases (Dir.mem_add hfree).mp hmem with hmem | rfl
      · exact absurd hid (Nat.ne_of_lt (s.store.dir.fresh f hmem))
      · exact hsize
    · simp only [owed]
      omega
    · simp only [claimed]
      omega
  | some f =>
    -- another `put` was here: the file is made empty and the charge is lost
    obtain ⟨hmem, hname⟩ := Dir.lookup_some.mp hf
    have hid := hnoOld f hmem hname
    obtain ⟨hdir, hfol, htotal⟩ := hs.dir.mapContent
      (g := fun g => if g.name = h then [] else g.content)
      (by
        intro g hg hold
        have : g.name ≠ h := fun hn => Nat.not_lt.mpr (hnoOld g hg hn) hold
        rw [if_neg this])
      (by
        intro g hg hge
        have := hs.dir.length_le g hg
        rw [weight, if_neg (Nat.not_lt.mpr hge)] at this
        split
        · exact Nat.zero_le _
        · exact this)
    simp only [advance, Dir.create_of_some hf]
    apply hs.set hi s.store.storageUsed _ hs.word _ _ hdir hfol
    · refine ⟨hid, s.store.dir.fresh f hmem, ?_⟩
      intro g' hg' hgid
      obtain ⟨g, hg, rfl⟩ := Dir.mem_mapContent hg'
      cases List.inj_on_of_nodup_map s.store.dir.ids hg hmem hgid
      rw [hsize, hname]
    · simp only [owed]
      omega
    · simp only [claimed]
      omega

theorem Within.write (hs : Within size firstId s) {h : Hash} {data : Bytes} {id : Nat}
    (hi : s.threads[i]? = some (.putWrite h data id)) :
    Within size firstId ⟨(advance sha256 b s.store (.putWrite h data id)).1,
      s.threads.set i (advance sha256 b s.store (.putWrite h data id)).2⟩ := by
  obtain ⟨hfirst, -, hsize⟩ := hs.threads _ (List.mem_of_getElem? hi)
  obtain ⟨hdir, hfol, htotal⟩ := hs.dir.mapContent
    (g := fun f => if f.id = id then data ++ f.content.drop data.length else f.content)
    (by
      intro f _ hold
      rw [if_neg (by omega)])
    (by
      intro f hf hge
      have hle := hs.dir.length_le f hf
      rw [weight, if_neg (Nat.not_lt.mpr hge)] at hle
      split
      next hid =>
        have := hsize f hf hid
        rw [List.length_append, List.length_drop]
        omega
      next => exact hle)
  apply hs.set hi s.store.storageUsed _ hs.word _ _ hdir hfol
  · exact trivial
  · simp only [advance, owed]
    omega
  · simp only [advance, claimed]
    omega

theorem Within.unlink (hs : Within size firstId s) {pc pc' : Pc} (hi : s.threads[i]? = some pc)
    (h : Hash) (howed : owed pc' + Dir.total (weight size firstId) (s.store.dir.unlink h) ≤
      owed pc + Dir.total (weight size firstId) s.store.dir)
    (hclaimed : claimed s.store.maxStorage pc' = 0) (hpc : ∀ dir, ThreadOk size firstId dir pc') :
    Within size firstId ⟨s.store.unlink h, s.threads.set i pc'⟩ := by
  obtain ⟨hdir, hfol⟩ := hs.dir.unlink h
  have hle := Dir.total_unlink_le (weight size firstId) s.store.dir h
  exact hs.set hi s.store.storageUsed _ hs.word (by omega) (by omega) hdir hfol (hpc _)

theorem DirOk.stat {dir : Dir Hash UInt8} (hdir : DirOk size firstId dir) {store : ChunkStore}
    (hstore : store.dir = dir) (h : Hash) :
    ThreadOk size firstId dir (.deleteUnlink h (store.statLen h)) := by
  subst hstore
  unfold statLen
  cases hf : store.dir.lookup h with
  | none => exact ⟨Nat.zero_le _, fun _ _ _ => Nat.zero_le _⟩
  | some f =>
    obtain ⟨hmem, rfl⟩ := Dir.lookup_some.mp hf
    have hlen := hdir.length_le f hmem
    refine ⟨Nat.le_trans hlen (hdir.weight_le f hmem), ?_⟩
    intro g hg hname
    cases List.inj_on_of_nodup_map store.dir.names hg hmem hname
    exact hlen

theorem Within.run (hs : Within size firstId s) {pc : Pc} (hi : s.threads[i]? = some pc)
    (hok : fits s (.run i)) :
    Within size firstId
      ⟨(advance sha256 b s.store pc).1, s.threads.set i (advance sha256 b s.store pc).2⟩ := by
  have hpc := hs.threads pc (List.mem_of_getElem? hi)
  simp only [fits, hi] at hok
  cases pc with
  | putExists h data =>
    simp only [advance]
    split
    · exact hs.goto hi (Nat.le_refl _) (Nat.le_refl _) trivial
    next hnot =>
      refine hs.goto hi (Nat.le_refl _) (Nat.le_refl _) ⟨hpc, ?_⟩
      intro f hf hname
      have hnone : s.store.dir.lookup h = none := by simpa [ChunkStore.exists] using hnot
      exact absurd hname (Dir.lookup_none.mp hnone f hf)
  | putReserve h data => exact hs.reserve hi (by simpa using hok)
  | putCompare h data prev =>
    obtain ⟨hsize, hnoOld, hword⟩ := hpc
    simp only [advance, b.add_of_lt hword]
    split
    · exact hs.goto hi (Nat.le_refl _) (Nat.zero_le _) trivial
    next hle =>
      refine hs.goto hi (Nat.le_refl _) ?_ ⟨hsize, hnoOld⟩
      simp only [claimed, Nat.not_lt.mp hle, if_true, Nat.le_refl]
  | putRollback h data prev => exact hs.release hi rfl rfl trivial
  | putCreate h data => exact hs.create hi
  | putWrite h data id => exact hs.write hi
  | getExists h =>
    simp only [advance]
    split
    · exact hs.goto hi (Nat.le_refl _) (Nat.le_refl _) trivial
    · exact hs.goto hi (Nat.le_refl _) (Nat.le_refl _) trivial
  | getRead h =>
    simp only [advance]
    split
    · exact hs.goto hi (Nat.le_refl _) (Nat.le_refl _) trivial
    · split
      · exact hs.goto hi (Nat.le_refl _) (Nat.le_refl _) trivial
      · exact hs.goto hi (Nat.le_refl _) (Nat.le_refl _) trivial
  | getUnlink h =>
    have hle := Dir.total_unlink_le (weight size firstId) s.store.dir h
    exact hs.unlink hi h (by simp only [advance, owed]; omega) rfl fun _ => trivial
  | deleteExists h =>
    simp only [advance]
    split
    · exact hs.goto hi (Nat.le_refl _) (Nat.le_refl _) trivial
    · exact hs.goto hi (Nat.le_refl _) (Nat.le_refl _) trivial
  | deleteStat h => exact hs.goto hi (Nat.le_refl _) (Nat.le_refl _) (hs.dir.stat rfl h)
  | deleteUnlink h len =>
    cases hf : s.store.dir.lookup h with
    | none =>
      simp only [advance, hf]
      exact hs.goto hi (Nat.le_refl _) (Nat.le_refl _) trivial
    | some f =>
      obtain ⟨hmem, hname⟩ := Dir.lookup_some.mp hf
      have hlen := hpc.2 f hmem hname
      have htotal := Dir.total_unlink (w := weight size firstId) hf
      simp only [advance, hf]
      exact hs.unlink hi h (by simp only [owed]; omega) rfl fun _ => trivial
  | deleteSub h len => exact hs.release hi rfl rfl trivial
  | done call reply => exact hs.goto hi (Nat.le_refl _) (Nat.le_refl _) trivial

theorem Within.call (hs : Within size firstId s) (c : Call)
    (hput : ∀ data, c = .put (sha256 data) data → data.length = size (sha256 data)) :
    Within size firstId { s with threads := s.threads ++ [Pc.start sha256 c] } := by
  have hstart : owed (Pc.start sha256 c) = 0 ∧ (∀ m, claimed m (Pc.start sha256 c) = 0) ∧
      ThreadOk size firstId s.store.dir (Pc.start sha256 c) := by
    rcases start_cases sha256 c with ⟨_, h⟩ | ⟨data, hc, h⟩ | ⟨_, -, h⟩ | ⟨_, -, h⟩ <;> rw [h]
    · exact ⟨rfl, fun _ => rfl, trivial⟩
    · exact ⟨rfl, fun _ => rfl, hput data hc⟩
    · exact ⟨rfl, fun _ => rfl, trivial⟩
    · exact ⟨rfl, fun _ => rfl, trivial⟩
  obtain ⟨howed, hclaimed, hpc⟩ := hstart
  refine ⟨hs.word, ?_, ?_, hs.dir, ?_⟩
  · simpa [howed] using hs.ledger
  · simpa [hclaimed] using hs.quota
  · intro pc hmem
    rcases List.mem_append.mp hmem with hmem | hmem
    · exact hs.threads pc hmem
    · rw [List.mem_singleton.mp hmem]
      exact hpc

end

/-! ## Whole runs -/

theorem Within.new {size : Hash → Nat} (maxStorage : UInt64) (dir : Dir Hash UInt8)
    (hmax : dir.size ≤ maxStorage.toNat) (hsize : ∀ f ∈ dir.files, f.content.length ≤ size f.name) :
    Within size dir.nextId (.new maxStorage dir) := by
  have hweight : ∀ f ∈ dir.files, weight size dir.nextId f = f.content.length :=
    fun f hf => if_pos (dir.fresh f hf)
  have htotal : Dir.total (weight size dir.nextId) dir = dir.size := by
    unfold Dir.size Dir.total
    rw [List.map_congr_left hweight]
  refine ⟨Nat.lt_of_le_of_lt hmax maxStorage.toNat_lt, ?_, ?_, ⟨Nat.le_refl _, ?_, ?_⟩, ?_⟩
  · simp [System.new, ChunkStore.new, htotal]
  · simpa [System.new, ChunkStore.new, htotal] using hmax
  · intro f hf
    exact Nat.le_of_eq (hweight f hf).symm
  · intro f hf
    rw [hweight f hf]
    exact hsize f hf
  · simp [System.new]

/-- The length of what is put under a name, or of what is there if nothing is. -/
def sizeOf (sha256 : Bytes → Hash) (dir : Dir Hash UInt8) (as : List Action) (h : Hash) : Nat :=
  match (puts sha256 as).find? (fun data => sha256 data = h) with
  | some data => data.length
  | none => ((dir.lookup h).map fun f => f.content.length).getD 0

section

variable {sha256 : Bytes → Hash} {dir : Dir Hash UInt8} {as : List Action}

theorem length_le_sizeOf
    (hold : ∀ f ∈ dir.files, ∀ data ∈ puts sha256 as, sha256 data = f.name →
      f.content.length ≤ data.length) :
    ∀ f ∈ dir.files, f.content.length ≤ sizeOf sha256 dir as f.name := by
  intro f hf
  unfold sizeOf
  split
  next data hfind =>
    exact hold f hf data (List.mem_of_find?_eq_some hfind) (by simpa using List.find?_some hfind)
  next => rw [Dir.lookup_some.mpr ⟨hf, rfl⟩]; rfl

theorem sizeOf_put (hhash : CollisionFree sha256 (puts sha256 as)) {data : Bytes}
    (hput : data ∈ puts sha256 as) : sizeOf sha256 dir as (sha256 data) = data.length := by
  unfold sizeOf
  split
  next data' hfind =>
    rw [hhash data' (List.mem_of_find?_eq_some hfind) data hput (by simpa using List.find?_some hfind)]
  next hfind => simpa using List.find?_eq_none.mp hfind data hput

end

theorem within_step {sha256 : Bytes → Hash} {b : Build} {size : Hash → Nat} {firstId m : Nat}
    {as : List Action}
    (hput : ∀ data ∈ puts sha256 as, size (sha256 data) = data.length) :
    ∀ s a, (s.store.maxStorage = m ∧ Within size firstId s) → (fits s a ∧ a ∈ as) →
      (step sha256 b s a).store.maxStorage = m ∧ Within size firstId (step sha256 b s a) := by
  apply step_keeps (I := fun s => s.store.maxStorage = m ∧ Within size firstId s)
    (fun s a => fits s a ∧ a ∈ as)
  · rintro s c ⟨hstore, hs⟩ ⟨-, hc⟩
    exact ⟨hstore, hs.call c fun data heq => (hput data (mem_puts sha256 (heq ▸ hc))).symm⟩
  · rintro s i pc ⟨hstore, hs⟩ hi ⟨hfits, -⟩
    exact ⟨(advance_maxStorage s.store pc).trans hstore, hs.run hi hfits⟩

/-- At every moment the files are within the quota and no subtraction that is due takes the counter
below zero. Required: no file of the start is longer than what is later put under its name, and no
reservation overflows. -/
theorem run_within (sha256 : Bytes → Hash) (b : Build) (maxStorage : UInt64) (dir : Dir Hash UInt8)
    (hmax : (System.new maxStorage dir).store.storageUsed ≤ maxStorage.toNat) (as : List Action)
    (hhash : CollisionFree sha256 (puts sha256 as))
    (hold : ∀ f ∈ dir.files, ∀ data ∈ puts sha256 as, sha256 data = f.name →
      f.content.length ≤ data.length)
    (hok : Meets (step sha256 b) (fun s a => fits s a) (.new maxStorage dir) as) :
    (run (step sha256 b) (.new maxStorage dir) as).store.dir.size ≤ maxStorage.toNat ∧
    ∀ pc ∈ (run (step sha256 b) (.new maxStorage dir) as).threads,
      subtracts pc ≤ (run (step sha256 b) (.new maxStorage dir) as).store.storageUsed := by
  have hinit : (System.new maxStorage dir).store.maxStorage = maxStorage.toNat := rfl
  obtain ⟨hstore, hinv⟩ := run_inv (within_step fun data => sizeOf_put hhash)
    ⟨hinit, Within.new maxStorage dir hmax (length_le_sizeOf hold)⟩ (meets_mem hok)
  constructor
  · have hle := Dir.total_mono hinv.dir.length_le
    have hquota := hinv.quota
    unfold Dir.size
    omega
  · intro pc hpc
    obtain ⟨i, hi⟩ := List.mem_iff_getElem?.mp hpc
    exact Nat.le_trans (subtracts_le_owed pc) (hinv.owed_le hi)

/-- A full store: a `put` is refused, a `delete` makes room, and the next `put` fits. -/
def refusedThenStored : List Action :=
  [.call (Call.putOf [1, 2])] ++ Action.runs 0 5 ++ [.call (Call.putOf [3])] ++ Action.runs 1 4 ++
    [.call (.delete (Sha256.digest [1, 2]))] ++ Action.runs 2 4 ++ [.call (Call.putOf [3])] ++
    Action.runs 3 5

theorem run_within_refusedThenStored :
    (run (step Sha256.digest .debug) (.new 2 Dir.empty) refusedThenStored).store.dir.size = 1 ∧
    (run (step Sha256.digest .debug) (.new 2 Dir.empty) refusedThenStored).store.dir.size ≤
      (2 : UInt64).toNat :=
  ⟨by decide +kernel, (run_within Sha256.digest .debug 2 Dir.empty (by decide) refusedThenStored
    (by decide +kernel) (by decide +kernel) (by decide +kernel)).1⟩

/-- A file of 100 bytes lies under the name of a chunk of one byte. Two threads read its length to
delete it. The first removes it, the chunk is put, and the second removes the chunk and takes 100
bytes from a counter of 1. -/
def longFile : Dir Hash UInt8 where
  files := [⟨Sha256.digest [1], 0, List.replicate 100 0⟩]
  nextId := 1
  names := by simp
  ids := by simp
  fresh := by simp

theorem stale_length_wraps_the_counter :
    let s := run (step Sha256.digest .release) (.new 100 longFile) (
      [.call (.delete (Sha256.digest [1])), .call (.delete (Sha256.digest [1])), .run 0, .run 0, .run 1,
        .run 1, .run 0, .run 0, .call (Call.putOf [1])] ++ Action.runs 2 5 ++ [.run 1])
    (∃ pc ∈ s.threads, s.store.storageUsed < subtracts pc) ∧
    (step Sha256.digest .release s (.run 1)).store.storageUsed = 2 ^ 64 - 99 := by
  decide +kernel

end TesserasDht.ChunkQuota
