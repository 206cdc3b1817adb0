import TesserasDht.Chunks

/-! # When the counter is exact -/

open Lib.Runs Lib.Files Lib.Lists

namespace TesserasDht.ChunkAccounting

open ChunkStore

/-- Bytes that a thread has added to the counter and not yet to a file, or taken from a file and not
yet from the counter. -/
def owed : Pc → Nat
  | .putCompare _ data _ => data.length
  | .putRollback _ data _ => data.length
  | .putCreate _ data => data.length
  | .putWrite _ data _ => data.length
  | .deleteSub _ len => len
  | _ => 0

/-- The steps that go wrong are not taken: the counter does not overflow, no `put` truncates a file
that another `put` made, no `get` removes a file, and a `delete` removes a file that is written and
as long as it was at the `stat`. -/
def accounted (s : System) : Action → Bool
  | .call _ => true
  | .run i => match s.threads[i]? with
    | some (.putReserve _ data) => s.store.storageUsed + data.length < wordSize
    | some (.putCreate h _) => (s.store.dir.lookup h).isNone
    | some (.getUnlink h) => (s.store.dir.lookup h).isNone
    | some (.deleteUnlink h len) => (s.store.dir.lookup h).all fun f =>
        f.content.length = len && s.threads.all fun pc => pc.handle ≠ some f.id
    | _ => true

/-! ## The invariant -/

/-- An empty file with the id. -/
def Empty (s : ChunkStore) (id : Nat) : Prop := ∃ f ∈ s.dir.files, f.id = id ∧ f.content = []

structure Exact (s : System) : Prop where
  ledger : s.store.storageUsed = s.store.dir.size + (s.threads.map owed).sum
  word : s.store.storageUsed < wordSize
  open_empty : ∀ (i : Nat) (pc : Pc) id, s.threads[i]? = some pc → pc.handle = some id → Empty s.store id
  open_once : ∀ (i j : Nat) (pc pc' : Pc) id, s.threads[i]? = some pc → s.threads[j]? = some pc' →
    pc.handle = some id → pc'.handle = some id → i = j
  sum_fits : ∀ (i : Nat) h (data : Bytes) prev, s.threads[i]? = some (.putCompare h data prev) →
    prev + data.length < wordSize

theorem Exact.set {s : System} (hs : Exact s) {i : Nat} {pc pc' : Pc} (hi : s.threads[i]? = some pc)
    (store : ChunkStore)
    (hledger : store.storageUsed + s.store.dir.size + owed pc =
      s.store.storageUsed + store.dir.size + owed pc')
    (hword : store.storageUsed < wordSize)
    (hothers : ∀ (j : Nat) (qc : Pc) id, j ≠ i → s.threads[j]? = some qc → qc.handle = some id → Empty store id)
    (hhandle : ∀ id, pc'.handle = some id → Empty store id ∧
      ∀ (j : Nat) (qc : Pc), j ≠ i → s.threads[j]? = some qc → qc.handle ≠ some id)
    (hsum : ∀ h (data : Bytes) prev, pc' = .putCompare h data prev → prev + data.length < wordSize) :
    Exact ⟨store, s.threads.set i pc'⟩ := by
  refine ⟨?_, hword, ?_, ?_, ?_⟩
  · have := sum_map_set owed s.threads i pc pc' hi
    have := hs.ledger
    dsimp only
    omega
  · intro j qc id hj hid
    rcases getElem?_set_some hj with ⟨-, rfl⟩ | ⟨hne, hj⟩
    · exact (hhandle id hid).1
    · exact hothers j qc id hne hj hid
  · intro j k qc qc' id hj hk hid hid'
    rcases getElem?_set_some hj with ⟨rfl, rfl⟩ | ⟨hne, hj'⟩ <;>
      rcases getElem?_set_some hk with ⟨rfl, rfl⟩ | ⟨hne', hk'⟩
    · rfl
    · exact absurd hid' ((hhandle id hid).2 k qc' hne' hk')
    · exact absurd hid ((hhandle id hid').2 j qc hne hj')
    · exact hs.open_once j k qc qc' id hj' hk' hid hid'
  · intro j h data prev hj
    rcases getElem?_set_some hj with ⟨-, hpc⟩ | ⟨-, hj⟩
    · exact hsum h data prev hpc.symm
    · exact hs.sum_fits j h data prev hj

/-! ## One step -/

section

variable {sha256 : Bytes → Hash} {b : Build} {s : System} {i : Nat}

theorem Exact.owed_le (hs : Exact s) {pc : Pc} (hi : s.threads[i]? = some pc) :
    owed pc ≤ s.store.storageUsed := by
  have := le_sum_map owed s.threads i pc hi
  have := hs.ledger
  omega

/-- A thread changes the counter. -/
theorem Exact.count (hs : Exact s) {pc pc' : Pc} (hi : s.threads[i]? = some pc) (used : Nat)
    (hused : used + owed pc = s.store.storageUsed + owed pc') (hword : used < wordSize)
    (hhandle : pc'.handle = none)
    (hsum : ∀ h data prev, pc' = .putCompare h data prev → prev + data.length < wordSize) :
    Exact ⟨{ s.store with storageUsed := used }, s.threads.set i pc'⟩ := by
  apply hs.set hi _ (by dsimp only; omega) hword
  · intro j qc id _ hj hid
    exact hs.open_empty j qc id hj hid
  · intro id hid
    rw [hhandle] at hid
    cases hid
  · exact hsum

theorem Exact.goto (hs : Exact s) {pc pc' : Pc} (hi : s.threads[i]? = some pc)
    (howed : owed pc' = owed pc) (hhandle : pc'.handle = none)
    (hsum : ∀ h data prev, pc' ≠ .putCompare h data prev) :
    Exact ⟨s.store, s.threads.set i pc'⟩ :=
  hs.count hi s.store.storageUsed (by rw [howed]) hs.word hhandle
    fun h data prev heq => absurd heq (hsum h data prev)

theorem Exact.create (hs : Exact s) {h : Hash} {data : Bytes}
    (hi : s.threads[i]? = some (.putCreate h data)) (hnone : s.store.dir.lookup h = none) :
    Exact ⟨(advance sha256 b s.store (.putCreate h data)).1,
      s.threads.set i (advance sha256 b s.store (.putCreate h data)).2⟩ := by
  have hfresh : ∀ id, Empty s.store id → id < s.store.dir.nextId := by
    rintro id ⟨f, hf, rfl, -⟩
    exact s.store.dir.fresh f hf
  have hfree := Dir.lookup_none.mp hnone
  simp only [advance, Dir.create_of_none hnone]
  apply hs.set hi
  · simp only [Dir.size, Dir.total_add, List.length_nil, owed]
    omega
  · exact hs.word
  · intro j qc id _ hj hid
    obtain ⟨f, hf, hfid, hempty⟩ := hs.open_empty j qc id hj hid
    exact ⟨f, (Dir.mem_add hfree).mpr (Or.inl hf), hfid, hempty⟩
  · intro id hid
    obtain rfl : s.store.dir.nextId = id := Option.some.inj hid
    refine ⟨⟨_, (Dir.mem_add hfree).mpr (Or.inr rfl), rfl, rfl⟩, ?_⟩
    intro j qc _ hj hqc
    exact Nat.lt_irrefl _ (hfresh _ (hs.open_empty j qc _ hj hqc))
  · intro _ _ _ heq
    cases heq

theorem Exact.write (hs : Exact s) {h : Hash} {data : Bytes} {id : Nat}
    (hi : s.threads[i]? = some (.putWrite h data id)) :
    Exact ⟨(advance sha256 b s.store (.putWrite h data id)).1,
      s.threads.set i (advance sha256 b s.store (.putWrite h data id)).2⟩ := by
  obtain ⟨f, hf, rfl, hempty⟩ := hs.open_empty i _ id hi rfl
  have htotal := Dir.total_write (fun g => g.content.length) hf data
  simp only [hempty, List.length_nil, List.drop_nil, List.append_nil] at htotal
  apply hs.set hi
  · simp only [advance, owed, Dir.size]
    omega
  · exact hs.word
  · intro j qc id hne hj hid
    obtain ⟨g, hg, rfl, hgempty⟩ := hs.open_empty j qc id hj hid
    -- the file of another thread is another file
    have hother : g.id ≠ f.id := by
      intro heq
      exact hne (hs.open_once j i qc _ g.id hj hi hid (by rw [heq]; rfl))
    refine ⟨_, List.mem_map_of_mem hg, rfl, ?_⟩
    dsimp only
    rw [if_neg hother]
    exact hgempty
  · intro id hid
    cases hid
  · intro _ _ _ heq
    cases heq

theorem Exact.unlink (hs : Exact s) {h : Hash} {len : Nat}
    (hi : s.threads[i]? = some (.deleteUnlink h len)) {f : File Hash UInt8}
    (hf : s.store.dir.lookup h = some f) (hlen : f.content.length = len)
    (hclosed : ∀ pc ∈ s.threads, pc.handle ≠ some f.id) :
    Exact ⟨(advance sha256 b s.store (.deleteUnlink h len)).1,
      s.threads.set i (advance sha256 b s.store (.deleteUnlink h len)).2⟩ := by
  have htotal : s.store.dir.size = (s.store.dir.unlink h).size + f.content.length :=
    Dir.total_unlink hf
  simp only [advance, hf]
  apply hs.set hi
  · simp only [ChunkStore.unlink, owed]
    omega
  · exact hs.word
  · intro j qc id _ hj hid
    obtain ⟨g, hg, rfl, hempty⟩ := hs.open_empty j qc id hj hid
    refine ⟨g, Dir.mem_unlink.mpr ⟨hg, ?_⟩, rfl, hempty⟩
    intro hname
    cases hf.symm.trans (Dir.lookup_some.mpr ⟨hg, hname⟩)
    exact hclosed qc (List.mem_of_getElem? hj) hid
  · intro id hid
    cases hid
  · intro _ _ _ heq
    cases heq

theorem Exact.run (hs : Exact s) {pc : Pc} (hi : s.threads[i]? = some pc)
    (hok : accounted s (.run i)) :
    Exact ⟨(advance sha256 b s.store pc).1, s.threads.set i (advance sha256 b s.store pc).2⟩ := by
  have howed := hs.owed_le hi
  have hword := hs.word
  simp only [accounted, hi] at hok
  cases pc with
  | putExists h data =>
    simp only [advance]
    split
    · exact hs.goto hi rfl rfl (by rintro _ _ _ ⟨⟩)
    · exact hs.goto hi rfl rfl (by rintro _ _ _ ⟨⟩)
  | putReserve h data =>
    have hfits : s.store.storageUsed + data.length < wordSize := by simpa using hok
    simp only [advance, reserve, fetchAdd_of_lt hfits]
    apply hs.count hi _ (by simp only [owed]; omega) hfits rfl
    rintro _ _ _ ⟨⟩
    exact hfits
  | putCompare h data prev =>
    simp only [advance, b.add_of_lt (hs.sum_fits i h data prev hi)]
    split
    · exact hs.goto hi rfl rfl (by rintro _ _ _ ⟨⟩)
    · exact hs.goto hi rfl rfl (by rintro _ _ _ ⟨⟩)
  | putRollback h data prev =>
    simp only [owed] at howed
    simp only [advance, release, fetchSub_of_le howed hword]
    exact hs.count hi _ (by simp only [owed]; omega) (by omega) rfl (by rintro _ _ _ ⟨⟩)
  | putCreate h data => exact hs.create hi (by simpa using hok)
  | putWrite h data id => exact hs.write hi
  | getExists h =>
    simp only [advance]
    split
    · exact hs.goto hi rfl rfl (by rintro _ _ _ ⟨⟩)
    · exact hs.goto hi rfl rfl (by rintro _ _ _ ⟨⟩)
  | getRead h =>
    simp only [advance]
    split
    · exact hs.goto hi rfl rfl (by rintro _ _ _ ⟨⟩)
    · split
      · exact hs.goto hi rfl rfl (by rintro _ _ _ ⟨⟩)
      · exact hs.goto hi rfl rfl (by rintro _ _ _ ⟨⟩)
  | getUnlink h =>
    have hnone : s.store.dir.lookup h = none := by simpa using hok
    simp only [advance, ChunkStore.unlink, Dir.unlink_of_none hnone]
    exact hs.goto hi rfl rfl (by rintro _ _ _ ⟨⟩)
  | deleteExists h =>
    simp only [advance]
    split
    · exact hs.goto hi rfl rfl (by rintro _ _ _ ⟨⟩)
    · exact hs.goto hi rfl rfl (by rintro _ _ _ ⟨⟩)
  | deleteStat h => exact hs.goto hi rfl rfl (by rintro _ _ _ ⟨⟩)
  | deleteUnlink h len =>
    cases hf : s.store.dir.lookup h with
    | none =>
      simp only [advance, hf]
      exact hs.goto hi rfl rfl (by rintro _ _ _ ⟨⟩)
    | some f =>
      simp only [hf, Option.all_some, Bool.and_eq_true, decide_eq_true_eq, List.all_eq_true] at hok
      exact hs.unlink hi hf hok.1 hok.2
  | deleteSub h len =>
    simp only [owed] at howed
    simp only [advance, release, fetchSub_of_le howed hword]
    exact hs.count hi _ (by simp only [owed]; omega) (by omega) rfl (by rintro _ _ _ ⟨⟩)
  | done call reply => exact hs.goto hi rfl rfl (by rintro _ _ _ ⟨⟩)

theorem Exact.call (hs : Exact s) (c : Call) :
    Exact { s with threads := s.threads ++ [Pc.start sha256 c] } := by
  have hstart : owed (Pc.start sha256 c) = 0 ∧ (Pc.start sha256 c).handle = none ∧
      ∀ h data prev, Pc.start sha256 c ≠ .putCompare h data prev := by
    rcases start_cases sha256 c with ⟨_, h⟩ | ⟨_, -, h⟩ | ⟨_, -, h⟩ | ⟨_, -, h⟩ <;> rw [h] <;>
      exact ⟨rfl, rfl, by rintro _ _ _ ⟨⟩⟩
  obtain ⟨howed, hhandle, hcompare⟩ := hstart
  refine ⟨?_, hs.word, ?_, ?_, ?_⟩
  · have := hs.ledger
    simp only [List.map_append, List.map_cons, List.map_nil, List.sum_append, List.sum_cons,
      List.sum_nil, howed]
    omega
  · intro i pc id hi hid
    rcases getElem?_concat_some hi with hi | ⟨-, rfl⟩
    · exact hs.open_empty i pc id hi hid
    · rw [hhandle] at hid
      cases hid
  · intro i j pc pc' id hi hj hid hid'
    rcases getElem?_concat_some hi with hi | ⟨-, rfl⟩
    · rcases getElem?_concat_some hj with hj | ⟨-, rfl⟩
      · exact hs.open_once i j pc pc' id hi hj hid hid'
      · rw [hhandle] at hid'
        cases hid'
    · rw [hhandle] at hid
      cases hid
  · intro i h data prev hi
    rcases getElem?_concat_some hi with hi | ⟨-, heq⟩
    · exact hs.sum_fits i h data prev hi
    · exact absurd heq.symm (hcompare h data prev)

theorem Exact.step (hs : Exact s) (a : Action) (hok : accounted s a) :
    Exact (step sha256 b s a) :=
  step_keeps (fun s a => accounted s a) (fun _ c hs _ => hs.call c)
    (fun _ _ _ hs hi hok => hs.run hi hok) s a hs hok

end

/-! ## Whole runs -/

theorem Exact.new (maxStorage : UInt64) (dir : Dir Hash UInt8) (hdir : dir.size < wordSize) :
    Exact (.new maxStorage dir) where
  ledger := by simp [System.new, ChunkStore.new]
  word := hdir
  open_empty := by simp [System.new]
  open_once := by simp [System.new]
  sum_fits := by simp [System.new]

theorem Exact.of_quiet {s : System} (hs : Exact s) (hquiet : quiet s) :
    s.store.storageUsed = s.store.dir.size := by
  have hzero : (s.threads.map owed).sum = 0 := by
    apply List.sum_eq_zero
    intro n hn
    obtain ⟨pc, hpc, rfl⟩ := List.mem_map.mp hn
    have hdone := List.all_eq_true.mp hquiet pc hpc
    cases pc <;> first | rfl | cases hdone
  rw [hs.ledger, hzero, Nat.add_zero]

/-- In every run whose steps are accounted, the counter is the size of the files whenever no call is
in flight. -/
theorem run_exact (sha256 : Bytes → Hash) (b : Build) (maxStorage : UInt64) (dir : Dir Hash UInt8)
    (hdir : dir.size < wordSize) (as : List Action)
    (hok : Meets (step sha256 b) (fun s a => accounted s a) (.new maxStorage dir) as)
    (hquiet : quiet (run (step sha256 b) (.new maxStorage dir) as)) :
    (run (step sha256 b) (.new maxStorage dir) as).store.storageUsed =
      (run (step sha256 b) (.new maxStorage dir) as).store.dir.size := by
  have hinv := run_inv (I := Exact) (fun s a hs ha => hs.step a ha) (Exact.new maxStorage dir hdir) hok
  exact hinv.of_quiet hquiet

/-- A chunk is put, read and deleted while another one is put. -/
def putGetDelete : List Action :=
  [.call (Call.putOf [1]), .call (Call.putOf [2, 3]), .run 0, .run 1, .run 1, .run 0] ++
    Action.runs 0 3 ++ Action.runs 1 3 ++ [.call (.get (Sha256.digest [1]))] ++ Action.runs 2 2 ++
    [.call (.delete (Sha256.digest [1]))] ++ Action.runs 3 4

theorem run_exact_putGetDelete :
    (run (step Sha256.digest .release) (.new 100 Dir.empty) putGetDelete).store.storageUsed = 2 ∧
    (run (step Sha256.digest .release) (.new 100 Dir.empty) putGetDelete).store.storageUsed =
      (run (step Sha256.digest .release) (.new 100 Dir.empty) putGetDelete).store.dir.size :=
  ⟨by decide +kernel, run_exact Sha256.digest .release 100 Dir.empty (by decide) putGetDelete
    (by decide +kernel) (by decide +kernel)⟩

/-- Two threads put the same chunk. Both see that it is not there, and both are charged. -/
theorem two_puts_are_charged_twice :
    let s := run (step Sha256.digest .release) (.new 100 Dir.empty) ([.call (Call.putOf [1]), .call (Call.putOf [1]),
      .run 0, .run 1] ++ Action.runs 0 4 ++ Action.runs 1 4)
    quiet s ∧ s.store.storageUsed = 2 ∧ s.store.dir.size = 1 := by
  decide +kernel

end TesserasDht.ChunkAccounting
