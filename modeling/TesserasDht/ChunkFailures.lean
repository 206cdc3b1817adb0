import TesserasDht.Lib.Runs
import TesserasDht.Code.ChunkStore

/-!
# What a failed call leaves behind

A `put` undoes its reservation when a file system call fails, and leaves the file that the failed write
began. A `get` removes a file whose content is wrong, and leaves its bytes on the counter.
-/

open Lib.Runs Lib.Files

namespace TesserasDht.ChunkFailures

open ChunkStore

/-- The call ends before `fs::write` has opened the file, and the sum that it makes does not overflow. -/
def Undone (sha256 : Bytes → Hash) (b : Build) (io : Faults) (s : ChunkStore) (hash : Hash) (data : Bytes) : Prop :=
  maxChunkSize < data.length ∨ sha256 data ≠ hash ∨
    ∃ sum, b.add s.storageUsed data.length = .ok sum ∧
      (s.maxStorage < sum ∨ io.createDir = true ∨ ∀ n, io.write ≠ some (.content n))

/-! ## The counter and the files -/

theorem fetchSub_fetchAdd {x : Nat} (hx : x < wordSize) (n : Nat) : fetchSub (fetchAdd x n) n = x := by
  simp only [fetchSub, fetchAdd, wordSize] at hx ⊢
  omega

theorem release_reserve {s : ChunkStore} (hs : s.storageUsed < wordSize) (n : Nat) :
    (s.reserve n).release n = s := by
  have hback := fetchSub_fetchAdd hs n
  unfold ChunkStore.release ChunkStore.reserve
  rw [hback]

theorem add_overflow {b : Build} {x y : Nat} {e : Failure} (h : b.add x y = .error e) : wordSize ≤ x + y := by
  unfold Build.add at h
  split at h
  · cases h
  · omega

theorem length_files_written {s : ChunkStore} {hash : Hash} (hnew : s.dir.lookup hash = none) (data data' : Bytes) :
    (s.written hash data data').dir.files.length = s.dir.files.length + 1 := by
  simp [ChunkStore.written, Dir.create_of_none hnew, Dir.write, Dir.mapContent, Dir.add]

theorem size_written {s : ChunkStore} {hash : Hash} (hnew : s.dir.lookup hash = none) (data data' : Bytes) :
    (s.written hash data data').dir.size = s.dir.size + data'.length := by
  have hfree := Dir.lookup_none.mp hnew
  have hadd := Dir.total_add (fun f => f.content.length) s.dir hash hfree
  have hwrite := Dir.total_write (fun f => f.content.length) ((Dir.mem_add hfree).mpr (Or.inr rfl)) data'
  simp only [List.length_nil, List.drop_nil, List.append_nil] at hadd hwrite
  simp only [ChunkStore.written, Dir.create_of_none hnew, Dir.size]
  omega

/-! ## A failed put -/

section

variable {sha256 : Bytes → Hash} {b : Build} {s : ChunkStore} {hash : Hash} {data : Bytes}

theorem get_written (hnew : s.dir.lookup hash = none) (hsha : sha256 data = hash) {io : Faults}
    (hread : io.read = false) : ((s.written hash data data).getSync sha256 io hash).1 = .ok (some data) := by
  have hfile : (s.written hash data data).dir.lookup hash = some ⟨hash, s.dir.nextId, data⟩ :=
    Dir.lookup_create_write_self hnew data
  simp [ChunkStore.getSync, hfile, hread, hsha]

theorem fits_of_put {io : Faults} (hok : (s.putSync sha256 b io hash data).1 = .ok ()) :
    data.length ≤ maxChunkSize ∧ sha256 data = hash := by
  have hend := s.putSync_end sha256 b io hash data
  generalize s.putSync sha256 b io hash data = r at hend hok
  cases hend with
  | refused | overflow | rolledBack | cut => cases hok
  | stored hlen hsha | done _ hlen hsha => exact ⟨hlen, hsha⟩

theorem readable_of_put (hnew : s.dir.lookup hash = none) {io io' : Faults}
    (hok : (s.putSync sha256 b io hash data).1 = .ok ()) (hread : io'.read = false) :
    ((s.putSync sha256 b io hash data).2.getSync sha256 io' hash).1 = .ok (some data) := by
  have hend := s.putSync_end sha256 b io hash data
  generalize s.putSync sha256 b io hash data = r at hend hok ⊢
  cases hend with
  | refused | overflow | rolledBack | cut => cases hok
  | stored _ _ hold => simp [ChunkStore.exists, hnew] at hold
  | done _ _ hsha => exact get_written hnew hsha hread

theorem failed_put_iff (sha256 : Bytes → Hash) (b : Build) (io : Faults) (s : ChunkStore) (hash : Hash)
    (data : Bytes) (hword : s.storageUsed < wordSize) (e : Failure)
    (hfail : (s.putSync sha256 b io hash data).1 = .error e) :
    let s' := (s.putSync sha256 b io hash data).2
    ((s'.dir.files = s.dir.files ∧ s'.storageUsed = s.storageUsed) ↔ Undone sha256 b io s hash data) ∧
    (Undone sha256 b io s hash data →
      (∀ io' io'' : Faults, (s'.putSync sha256 b io' hash data).1 = .ok () → io''.read = false →
        ((s'.putSync sha256 b io' hash data).2.getSync sha256 io'' hash).1 = .ok (some data)) ∧
      (s.dir.size ≤ s.storageUsed → s'.dir.size ≤ s'.storageUsed)) := by
  have hend := s.putSync_end sha256 b io hash data
  generalize s.putSync sha256 b io hash data = r at hend hfail ⊢
  cases hend with
  | stored | done => cases hfail
  | refused e h =>
    have hundone : Undone sha256 b io s hash data := by
      rcases h with hlen | hsha
      · exact Or.inl hlen
      · exact Or.inr (Or.inl hsha)
    refine ⟨iff_of_true ⟨rfl, rfl⟩ hundone, fun _ => ⟨fun io' io'' hok _ => ?_, fun hle => hle⟩⟩
    obtain ⟨hlen, hsha⟩ := fits_of_put hok
    rcases h with hlong | hbad
    · exact absurd hlen (by omega)
    · exact absurd hsha hbad
  | overflow e hlen hsha hnew hadd =>
    have hchanged : fetchAdd s.storageUsed data.length ≠ s.storageUsed := by
      have hover := add_overflow hadd
      simp only [fetchAdd, wordSize, maxChunkSize] at hword hlen hover ⊢
      omega
    have hnot : ¬Undone sha256 b io s hash data := by
      rintro (hlong | hbad | ⟨sum, hsum, -⟩)
      · omega
      · exact hbad hsha
      · cases hadd.symm.trans hsum
    exact ⟨iff_of_false (fun h => hchanged h.2) hnot, fun h => absurd h hnot⟩
  | rolledBack e sum hlen hsha hnew hadd hwhy =>
    have hundone : Undone sha256 b io s hash data := by
      refine Or.inr (Or.inr ⟨sum, hadd, ?_⟩)
      rcases hwhy with hfull | hdir | hopen
      · exact Or.inl hfull
      · exact Or.inr (Or.inl hdir)
      · refine Or.inr (Or.inr fun n hn => ?_)
        cases hopen.symm.trans hn
    dsimp only
    rw [release_reserve hword]
    refine ⟨iff_of_true ⟨rfl, rfl⟩ hundone, fun _ => ⟨fun io' io'' hok hread => ?_, fun hle => hle⟩⟩
    exact readable_of_put hnew hok hread
  | cut e sum n hlen hsha hnew hadd hroom hdir hwrite =>
    have hnot : ¬Undone sha256 b io s hash data := by
      rintro (hlong | hbad | ⟨sum', hsum, hfull | hdir' | hnever⟩)
      · omega
      · exact hbad hsha
      · cases hadd.symm.trans hsum
        omega
      · cases hdir.symm.trans hdir'
      · exact hnever n hwrite
    refine ⟨iff_of_false (fun h => ?_) hnot, fun h => absurd h hnot⟩
    have hlength := length_files_written hnew data (data.take n)
    have hfiles : (s.written hash data (data.take n)).dir.files = s.dir.files := h.1
    rw [hfiles] at hlength
    omega

end

/-- A disk that is full after `n` bytes. -/
def fullDisk (n : Nat) : Faults := { Faults.none with write := some (.content n) }

/-- The directory of a chunk cannot be made, so nothing is written. -/
theorem failed_put_iff_createDir :
    let s := ChunkStore.new 100 Dir.empty
    let s' := (s.putSync Sha256.digest .release { Faults.none with createDir := true } (Sha256.digest [1, 2]) [1, 2]).2
    s'.dir.files = s.dir.files ∧ s'.storageUsed = s.storageUsed := by
  have hfail : ((ChunkStore.new 100 Dir.empty).putSync Sha256.digest .release
      { Faults.none with createDir := true } (Sha256.digest [1, 2]) [1, 2]).1 = fail (.io .other "create_dir_all") := by
    decide +kernel
  have hundone : Undone Sha256.digest .release { Faults.none with createDir := true } (ChunkStore.new 100 Dir.empty)
      (Sha256.digest [1, 2]) [1, 2] := Or.inr (Or.inr ⟨2, by decide, Or.inr (Or.inl rfl)⟩)
  exact (failed_put_iff Sha256.digest .release _ _ _ _ (by decide) _ hfail).1.mpr hundone

/-- One of two bytes is written. The next put finds the file and succeeds, and the get that follows finds the
wrong content. -/
theorem cut_file_is_kept :
    let s := ChunkStore.new 100 Dir.empty
    let failed := s.putSync Sha256.digest .release (fullDisk 1) (Sha256.digest [1, 2]) [1, 2]
    let again := failed.2.putSync Sha256.digest .release Faults.none (Sha256.digest [1, 2]) [1, 2]
    failed.1 = fail (.io .other "write") ∧ failed.2.dir.files ≠ s.dir.files ∧
      failed.2.storageUsed < failed.2.dir.size ∧ again.1 = .ok () ∧
      (again.2.getSync Sha256.digest Faults.none (Sha256.digest [1, 2])).1 = .ok none := by
  decide +kernel

end TesserasDht.ChunkFailures
