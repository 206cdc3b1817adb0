import TesserasDht.ChunkFailures

/-!
# Calls of the chunk store, one after the other

Between two calls the bytes of a chunk file may change on the disk, but not their number. Any file system
call may fail.
-/

open Lib.Runs Lib.Files

namespace TesserasDht.ChunkHistories

open ChunkStore ChunkFailures

inductive Event
  | put (io : Faults) (hash : Hash) (data : Bytes)
  | get (io : Faults) (hash : Hash)
  | delete (io : Faults) (hash : Hash)
  /-- The file of the chunk gets other bytes, if it has as many. -/
  | corrupt (hash : Hash) (bytes : Bytes)

def corruptFile (s : ChunkStore) (hash : Hash) (bytes : Bytes) : ChunkStore :=
  { s with dir := s.dir.mapContent fun f =>
      if f.name = hash ∧ f.content.length = bytes.length then bytes else f.content }

section

variable (sha256 : Bytes → Hash) (b : Build)

def step (s : ChunkStore) : Event → ChunkStore
  | .put io hash data => (s.putSync sha256 b io hash data).2
  | .get io hash => (s.getSync sha256 io hash).2
  | .delete io hash => (s.deleteSync io hash).2
  | .corrupt hash bytes => corruptFile s hash bytes

/-- A `put` that leaves the counter as it was, or adds what it wrote. -/
def PutAccounted (s : ChunkStore) (io : Faults) (hash : Hash) (data : Bytes) : Prop :=
  maxChunkSize < data.length ∨ sha256 data ≠ hash ∨ s.exists hash = true ∨
    ∃ sum, b.add s.storageUsed data.length = .ok sum ∧
      (s.maxStorage < sum ∨ io.createDir = true ∨ io.write = some .open ∨
        (∃ n, io.write = some (.content n) ∧ data.take n = []) ∨
        io.write = none ∧ s.storageUsed + data.length < wordSize)

/-- No `get` removes bytes of a corrupted file, no `delete` removes bytes that it could not count, and a
`put` is accounted for. -/
def Accounted (s : ChunkStore) : Event → Prop
  | .put io hash data => PutAccounted sha256 b s io hash data
  | .get io hash => ∀ f ∈ s.dir.lookup hash,
      io.read = true ∨ sha256 f.content = hash ∨ io.unlink = true ∨ f.content = []
  | .delete io hash => ∀ f ∈ s.dir.lookup hash, io.unlink = true ∨ io.stat = false ∨ f.content = []
  | .corrupt _ _ => True

end

/-! ## One call -/

section

variable {sha256 : Bytes → Hash} {b : Build} {s : ChunkStore} {hash : Hash}

theorem size_corruptFile (s : ChunkStore) (hash : Hash) (bytes : Bytes) :
    (corruptFile s hash bytes).dir.size = s.dir.size := by
  refine Dir.total_mapContent fun f _ => ?_
  dsimp only
  split
  next h => exact h.2.symm
  next => rfl

theorem put_exact_iff (io : Faults) (data : Bytes) (hs : s.storageUsed = s.dir.size)
    (hword : s.storageUsed < wordSize) :
    (s.putSync sha256 b io hash data).2.storageUsed = (s.putSync sha256 b io hash data).2.dir.size ↔
      PutAccounted sha256 b s io hash data := by
  have hend := s.putSync_end sha256 b io hash data
  generalize s.putSync sha256 b io hash data = r at hend ⊢
  cases hend with
  | refused e h =>
    refine iff_of_true hs ?_
    rcases h with hlen | hsha
    · exact Or.inl hlen
    · exact Or.inr (Or.inl hsha)
  | stored _ _ hold => exact iff_of_true hs (Or.inr (Or.inr (Or.inl hold)))
  | overflow e hlen hsha hnew hadd =>
    have hover := add_overflow hadd
    refine iff_of_false ?_ ?_
    · change fetchAdd s.storageUsed data.length ≠ s.dir.size
      rw [← hs]
      simp only [fetchAdd, wordSize, maxChunkSize] at hword hlen hover ⊢
      omega
    · rintro (hlong | hbad | hold | ⟨sum, hsum, -⟩)
      · omega
      · exact hbad hsha
      · simp [ChunkStore.exists, hnew] at hold
      · cases hadd.symm.trans hsum
  | rolledBack e sum hlen _ _ hadd hwhy =>
    dsimp only
    rw [release_reserve hword]
    refine iff_of_true hs (Or.inr (Or.inr (Or.inr ⟨sum, hadd, ?_⟩)))
    rcases hwhy with hfull | hdir | hopen
    · exact Or.inl hfull
    · exact Or.inr (Or.inl hdir)
    · exact Or.inr (Or.inr (Or.inl hopen))
  | cut e sum n hlen hsha hnew hadd hroom hdir hwrite =>
    have hused : ((s.written hash data (data.take n)).release data.length).storageUsed = s.storageUsed :=
      fetchSub_fetchAdd hword _
    have hsize : ((s.written hash data (data.take n)).release data.length).dir.size =
        s.dir.size + (data.take n).length := size_written hnew data _
    rw [hused, hsize, hs]
    constructor
    · intro h
      have hnil : data.take n = [] := List.eq_nil_of_length_eq_zero (by omega)
      exact Or.inr (Or.inr (Or.inr ⟨sum, hadd, Or.inr (Or.inr (Or.inr (Or.inl ⟨n, hwrite, hnil⟩)))⟩))
    · rintro (hlong | hbad | hold | ⟨sum', hsum, hfull | hdir' | hopen | ⟨m, hm, hnil⟩ | ⟨hnone, -⟩⟩)
      · omega
      · exact absurd hsha hbad
      · simp [ChunkStore.exists, hnew] at hold
      · cases hadd.symm.trans hsum
        omega
      · cases hdir.symm.trans hdir'
      · cases hwrite.symm.trans hopen
      · cases hwrite.symm.trans hm
        rw [hnil]
        rfl
      · cases hwrite.symm.trans hnone
  | done sum hlen hsha hnew hadd hroom hdir hwrite =>
    have hsize := size_written hnew data data
    have hused : (s.written hash data data).storageUsed = fetchAdd s.storageUsed data.length := rfl
    dsimp only
    rw [hsize, hused, ← hs]
    have hfits : fetchAdd s.storageUsed data.length = s.storageUsed + data.length ↔
        s.storageUsed + data.length < wordSize := by
      simp only [fetchAdd, wordSize]
      omega
    rw [hfits]
    constructor
    · exact fun h => Or.inr (Or.inr (Or.inr ⟨sum, hadd, Or.inr (Or.inr (Or.inr (Or.inr ⟨hwrite, h⟩)))⟩))
    · rintro (hlong | hbad | hold | ⟨sum', hsum, hfull | hdir' | hopen | ⟨m, hm, -⟩ | ⟨-, h⟩⟩)
      · omega
      · exact absurd hsha hbad
      · simp [ChunkStore.exists, hnew] at hold
      · cases hadd.symm.trans hsum
        omega
      · cases hdir.symm.trans hdir'
      · cases hwrite.symm.trans hopen
      · cases hwrite.symm.trans hm
      · exact h

/-- A `get` removes a file and leaves the counter. -/
theorem get_exact_iff (io : Faults) (hs : s.storageUsed = s.dir.size) :
    (s.getSync sha256 io hash).2.storageUsed = (s.getSync sha256 io hash).2.dir.size ↔
      ∀ f ∈ s.dir.lookup hash, io.read = true ∨ sha256 f.content = hash ∨ io.unlink = true ∨ f.content = [] := by
  unfold ChunkStore.getSync
  cases hf : s.dir.lookup hash with
  | none => exact iff_of_true hs (by rintro _ ⟨⟩)
  | some f =>
    have htotal : s.dir.size = (s.dir.unlink hash).size + f.content.length := Dir.total_unlink hf
    simp only [Option.mem_def, Option.some.injEq, forall_eq']
    by_cases hread : io.read = true
    · simp [hread, hs]
    · by_cases hsha : sha256 f.content = hash
      · simp [hread, hsha, hs]
      · by_cases hunlink : io.unlink = true
        · simp [hread, hsha, hunlink, hs]
        · simp only [hread, hsha, hunlink, ne_eq, not_false_eq_true, if_true, Bool.false_eq_true, if_false, false_or,
            ChunkStore.unlink]
          rw [← List.length_eq_zero_iff]
          omega

theorem delete_exact_iff (io : Faults) (hs : s.storageUsed = s.dir.size) (hword : s.storageUsed < wordSize) :
    (s.deleteSync io hash).2.storageUsed = (s.deleteSync io hash).2.dir.size ↔
      ∀ f ∈ s.dir.lookup hash, io.unlink = true ∨ io.stat = false ∨ f.content = [] := by
  unfold ChunkStore.deleteSync ChunkStore.exists ChunkStore.statLen
  cases hf : s.dir.lookup hash with
  | none => exact iff_of_true hs (by rintro _ ⟨⟩)
  | some f =>
    have htotal : s.dir.size = (s.dir.unlink hash).size + f.content.length := Dir.total_unlink hf
    simp only [Option.mem_def, Option.some.injEq, forall_eq', Option.isSome_some, if_true, Option.map_some,
      Option.getD_some]
    by_cases hunlink : io.unlink = true
    · simp [hunlink, hs]
    · simp only [hunlink, Bool.false_eq_true, if_false, false_or, ChunkStore.unlink, ChunkStore.release]
      cases hstat : io.stat with
      | false =>
        have hback : fetchSub s.storageUsed f.content.length = s.storageUsed - f.content.length :=
          fetchSub_of_le (by omega) hword
        simp only [Bool.false_eq_true, if_false, true_or, iff_true, hback]
        omega
      | true =>
        have hback : fetchSub s.storageUsed 0 = s.storageUsed := fetchSub_of_le (Nat.zero_le _) hword
        simp only [if_true, Bool.true_eq_false, false_or, hback]
        rw [← List.length_eq_zero_iff]
        omega

theorem step_exact_iff (e : Event) (hs : s.storageUsed = s.dir.size) (hword : s.storageUsed < wordSize) :
    (step sha256 b s e).storageUsed = (step sha256 b s e).dir.size ↔ Accounted sha256 b s e := by
  cases e with
  | put io hash data => exact put_exact_iff io data hs hword
  | get io hash => exact get_exact_iff io hs
  | delete io hash => exact delete_exact_iff io hs hword
  | corrupt hash bytes => exact iff_of_true (hs.trans (size_corruptFile s hash bytes).symm) trivial

theorem step_word (e : Event) (hword : s.storageUsed < wordSize) : (step sha256 b s e).storageUsed < wordSize := by
  have hmod (n : Nat) : n % wordSize < wordSize := Nat.mod_lt _ (Nat.two_pow_pos 64)
  cases e with
  | put io hash data =>
    have hend := s.putSync_end sha256 b io hash data
    change (s.putSync sha256 b io hash data).2.storageUsed < wordSize
    generalize s.putSync sha256 b io hash data = r at hend ⊢
    cases hend with
    | refused | stored => exact hword
    | overflow | rolledBack | cut | done => exact hmod _
  | get io hash =>
    change (s.getSync sha256 io hash).2.storageUsed < wordSize
    unfold ChunkStore.getSync
    split
    · exact hword
    · split_ifs <;> exact hword
  | delete io hash =>
    change (s.deleteSync io hash).2.storageUsed < wordSize
    unfold ChunkStore.deleteSync
    dsimp only
    split_ifs
    · exact hword
    · exact hmod _
    · exact hmod _
    · exact hword
  | corrupt hash bytes => exact hword

end

/-! ## Histories -/

/-- The counter is the size of the files after every call just when every call is accounted for. -/
theorem history_exact_iff (sha256 : Bytes → Hash) (b : Build) (maxStorage : Nat) (dir : Dir Hash UInt8)
    (hdir : dir.size < wordSize) (events : List Event) :
    (∀ n, (run (step sha256 b) (ChunkStore.new maxStorage dir) (events.take n)).storageUsed =
        (run (step sha256 b) (ChunkStore.new maxStorage dir) (events.take n)).dir.size) ↔
      Meets (step sha256 b) (Accounted sha256 b) (ChunkStore.new maxStorage dir) events := by
  have hall : Meets (step sha256 b) (fun _ _ => True) (ChunkStore.new maxStorage dir) events :=
    meets_of_forall (fun _ _ => trivial) _ events
  exact run_inv_iff (I := fun s => s.storageUsed = s.dir.size) (J := fun s => s.storageUsed < wordSize)
    (fun _ e h _ => step_word e h) (fun _ e h _ hs => step_exact_iff e hs h) hdir rfl hall

/-- A chunk is put, read and deleted, and a file is corrupted and read no more. -/
def putReadDelete : List Event :=
  [.put Faults.none (Sha256.digest [1]) [1], .put Faults.none (Sha256.digest [2, 3]) [2, 3],
    .get Faults.none (Sha256.digest [1]), .corrupt (Sha256.digest [2, 3]) [3, 2],
    .delete Faults.none (Sha256.digest [2, 3]), .delete Faults.none (Sha256.digest [1])]

theorem history_exact_iff_putReadDelete :
    let s := run (step Sha256.digest .release) (ChunkStore.new 100 Dir.empty) (putReadDelete.take 4)
    s.storageUsed = s.dir.size := by
  have haccounted : Meets (step Sha256.digest .release) (Accounted Sha256.digest .release)
      (ChunkStore.new 100 Dir.empty) putReadDelete := by
    refine ⟨?_, ?_, ?_, trivial, ?_, ?_, trivial⟩
    · exact Or.inr (Or.inr (Or.inr ⟨1, by decide, Or.inr (Or.inr (Or.inr (Or.inr (by decide))))⟩))
    · exact Or.inr (Or.inr (Or.inr ⟨3, by decide +kernel, Or.inr (Or.inr (Or.inr (Or.inr (by decide +kernel))))⟩))
    · unfold Accounted
      decide +kernel
    · exact fun _ _ => Or.inr (Or.inl rfl)
    · exact fun _ _ => Or.inr (Or.inl rfl)
  exact (history_exact_iff Sha256.digest .release 100 Dir.empty (by decide) putReadDelete).mpr haccounted 4

/-- A corrupted chunk is dropped, and its two bytes stay on the counter. -/
theorem dropped_chunk_keeps_quota :
    let s := run (step Sha256.digest .release) (ChunkStore.new 100 Dir.empty)
      [.put Faults.none (Sha256.digest [1, 2]) [1, 2], .corrupt (Sha256.digest [1, 2]) [2, 1],
        .get Faults.none (Sha256.digest [1, 2])]
    s.storageUsed = 2 ∧ s.dir.size = 0 := by
  decide +kernel

end TesserasDht.ChunkHistories
