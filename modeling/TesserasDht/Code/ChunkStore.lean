import TesserasDht.Code.Basic
import TesserasDht.Lib.Files

/-!
# The chunk store

`src/storage/chunks.rs`. The path of a chunk is its hash in hex under two directories of its first
bytes, so a hash is a file name here. The scan at startup counts the files of the directory, and
their sizes do not add up to `2^64`.
-/

open Lib.Files

namespace TesserasDht

def maxChunkSize : Nat := 4 * 1024 * 1024

structure ChunkStore where
  maxStorage : Nat
  storageUsed : Nat
  dir : Dir Hash UInt8

namespace ChunkStore

def new (maxStorage : Nat) (dir : Dir Hash UInt8) : ChunkStore :=
  { maxStorage, storageUsed := dir.size, dir }

/-! ## Atomic steps -/

def «exists» (s : ChunkStore) (h : Hash) : Bool := (s.dir.lookup h).isSome

/-- `storage_used.fetch_add`. -/
def reserve (s : ChunkStore) (size : Nat) : ChunkStore :=
  { s with storageUsed := fetchAdd s.storageUsed size }

/-- `storage_used.fetch_sub`. -/
def release (s : ChunkStore) (size : Nat) : ChunkStore :=
  { s with storageUsed := fetchSub s.storageUsed size }

/-- `metadata(..).map(|m| m.len()).unwrap_or(0)`. -/
def statLen (s : ChunkStore) (h : Hash) : Nat := ((s.dir.lookup h).map fun f => f.content.length).getD 0

def unlink (s : ChunkStore) (h : Hash) : ChunkStore := { s with dir := s.dir.unlink h }

/-! ## A call that runs alone -/

/-- `std::fs::write` fails when it opens the file, or after some bytes. -/
inductive WriteFault
  | «open»
  | content (written : Nat)

/-- The file system calls that fail within one call of the store. -/
structure Faults where
  createDir : Bool
  write : Option WriteFault
  read : Bool
  stat : Bool
  unlink : Bool

def Faults.none : Faults := ⟨false, .none, false, false, false⟩

section

variable (sha256 : Bytes → Hash) (b : Build)

def putSync (io : Faults) (s : ChunkStore) (expectedHash : Hash) (data : Bytes) :
    Outcome Unit × ChunkStore :=
  if maxChunkSize < data.length then
    (fail (.io .invalidInput "chunk too large"), s)
  else if sha256 data ≠ expectedHash then
    (fail (.invalidIdentity "chunk hash mismatch"), s)
  else if s.exists expectedHash then
    (.ok (), s)
  else
    let size := data.length
    let prev := s.storageUsed
    let s := s.reserve size
    match b.add prev size with
    | .error e => (.error e, s)
    | .ok sum =>
      if s.maxStorage < sum then
        (fail (.storageFull (s.maxStorage - prev)), s.release size)
      else if io.createDir then
        (fail (.io .other "create_dir_all"), s.release size)
      else
        let (dir, id) := s.dir.create expectedHash
        match io.write with
        | some .open => (fail (.io .other "write"), s.release size)
        | some (.content n) =>
          (fail (.io .other "write"), { s with dir := dir.write id (data.take n) }.release size)
        | none => (.ok (), { s with dir := dir.write id data })

def getSync (io : Faults) (s : ChunkStore) (hash : Hash) : Outcome (Option Bytes) × ChunkStore :=
  match s.dir.lookup hash with
  | none => (.ok none, s)
  | some f =>
    if io.read then
      (fail (.io .other "read"), s)
    else if sha256 f.content ≠ hash then
      (.ok none, if io.unlink then s else s.unlink hash)
    else
      (.ok (some f.content), s)

def deleteSync (io : Faults) (s : ChunkStore) (hash : Hash) : Outcome Bool × ChunkStore :=
  if s.exists hash then
    let len := if io.stat then 0 else s.statLen hash
    if io.unlink then
      (fail (.io .other "remove_file"), s)
    else
      (.ok true, (s.unlink hash).release len)
  else
    (.ok false, s)

/-- The state after `fs::write` wrote `written` to the new file of the chunk. -/
def written (s : ChunkStore) (hash : Hash) (data written : Bytes) : ChunkStore :=
  { s.reserve data.length with dir := (s.dir.create hash).1.write (s.dir.create hash).2 written }

/-- The ways in which `put_sync` ends. -/
inductive PutEnd (io : Faults) (s : ChunkStore) (hash : Hash) (data : Bytes) : Outcome Unit × ChunkStore → Prop
  | refused (e : TesseraError) (h : maxChunkSize < data.length ∨ sha256 data ≠ hash) :
    PutEnd io s hash data (fail e, s)
  | stored (hlen : data.length ≤ maxChunkSize) (hsha : sha256 data = hash) (hold : s.exists hash = true) :
    PutEnd io s hash data (.ok (), s)
  | overflow (e : Failure) (hlen : data.length ≤ maxChunkSize) (hsha : sha256 data = hash)
    (hnew : s.dir.lookup hash = none) (hadd : b.add s.storageUsed data.length = .error e) :
    PutEnd io s hash data (.error e, s.reserve data.length)
  | rolledBack (e : TesseraError) (sum : Nat) (hlen : data.length ≤ maxChunkSize) (hsha : sha256 data = hash)
    (hnew : s.dir.lookup hash = none) (hadd : b.add s.storageUsed data.length = .ok sum)
    (hfail : s.maxStorage < sum ∨ io.createDir = true ∨ io.write = some .open) :
    PutEnd io s hash data (fail e, (s.reserve data.length).release data.length)
  | cut (e : TesseraError) (sum n : Nat) (hlen : data.length ≤ maxChunkSize) (hsha : sha256 data = hash)
    (hnew : s.dir.lookup hash = none) (hadd : b.add s.storageUsed data.length = .ok sum)
    (hroom : sum ≤ s.maxStorage) (hdir : io.createDir = false) (hwrite : io.write = some (.content n)) :
    PutEnd io s hash data (fail e, (s.written hash data (data.take n)).release data.length)
  | done (sum : Nat) (hlen : data.length ≤ maxChunkSize) (hsha : sha256 data = hash)
    (hnew : s.dir.lookup hash = none) (hadd : b.add s.storageUsed data.length = .ok sum)
    (hroom : sum ≤ s.maxStorage) (hdir : io.createDir = false) (hwrite : io.write = none) :
    PutEnd io s hash data (.ok (), s.written hash data data)

theorem putSync_end (io : Faults) (s : ChunkStore) (hash : Hash) (data : Bytes) :
    PutEnd sha256 b io s hash data (s.putSync sha256 b io hash data) := by
  unfold putSync
  split
  next hlen => exact .refused _ (Or.inl hlen)
  next hlen =>
    have hlen := Nat.not_lt.mp hlen
    split
    next hsha => exact .refused _ (Or.inr hsha)
    next hsha =>
      have hsha := not_not.mp hsha
      split
      next hold => exact .stored hlen hsha hold
      next hold =>
        have hnew : s.dir.lookup hash = none := by simpa [ChunkStore.exists] using hold
        dsimp only
        split
        next e hadd => exact .overflow e hlen hsha hnew hadd
        next sum hadd =>
          split
          next hfull => exact .rolledBack _ sum hlen hsha hnew hadd (Or.inl hfull)
          next hroom =>
            have hroom := Nat.not_lt.mp hroom
            split
            next hdir => exact .rolledBack _ sum hlen hsha hnew hadd (Or.inr (Or.inl hdir))
            next hdir =>
              have hdir := Bool.not_eq_true _ ▸ hdir
              split
              next hwrite => exact .rolledBack _ sum hlen hsha hnew hadd (Or.inr (Or.inr hwrite))
              next n hwrite => exact .cut _ sum n hlen hsha hnew hadd hroom hdir hwrite
              next hwrite => exact .done sum hlen hsha hnew hadd hroom hdir hwrite

/-- `spawn_blocking(..).await` turns a panic into an I/O error, here without its text. -/
def joined {α : Type} : Outcome α → Outcome α
  | .error (.panic _) => fail (.io .other "task panicked")
  | r => r

def put (io : Faults) (s : ChunkStore) (expectedHash : Hash) (data : Bytes) :
    Outcome Unit × ChunkStore :=
  let (r, s) := putSync sha256 b io s expectedHash data
  (joined r, s)

def get (io : Faults) (s : ChunkStore) (hash : Hash) : Outcome (Option Bytes) × ChunkStore :=
  let (r, s) := getSync sha256 io s hash
  (joined r, s)

end

/-! ## Calls that run side by side

Each call runs on a thread of the blocking pool. A step of a thread is one access to the counter or
to the file system. No file system call fails here, except that a name may be gone. -/

inductive Call
  | put (expectedHash : Hash) (data : Bytes)
  | get (hash : Hash)
  | delete (hash : Hash)
deriving DecidableEq, Repr

inductive Reply
  | put (r : Outcome Unit)
  | get (r : Outcome (Option Bytes))
  | delete (r : Outcome Bool)
deriving DecidableEq

/-- Where a thread stands: what it does next. -/
inductive Pc
  | putExists (h : Hash) (data : Bytes)
  | putReserve (h : Hash) (data : Bytes)
  | putCompare (h : Hash) (data : Bytes) (prev : Nat)
  | putRollback (h : Hash) (data : Bytes) (prev : Nat)
  | putCreate (h : Hash) (data : Bytes)
  | putWrite (h : Hash) (data : Bytes) (id : Nat)
  | getExists (h : Hash)
  | getRead (h : Hash)
  | getUnlink (h : Hash)
  | deleteExists (h : Hash)
  | deleteStat (h : Hash)
  | deleteUnlink (h : Hash) (len : Nat)
  | deleteSub (h : Hash) (len : Nat)
  | done (call : Call) (reply : Reply)
deriving DecidableEq

section

variable (sha256 : Bytes → Hash) (b : Build)

/-- The checks of `put_sync` that touch nothing shared come with the call. -/
def Pc.start : Call → Pc
  | .put h data =>
    if maxChunkSize < data.length then
      .done (.put h data) (.put (fail (.io .invalidInput "chunk too large")))
    else if sha256 data ≠ h then
      .done (.put h data) (.put (fail (.invalidIdentity "chunk hash mismatch")))
    else
      .putExists h data
  | .get h => .getExists h
  | .delete h => .deleteExists h

def advance (s : ChunkStore) : Pc → ChunkStore × Pc
  | .putExists h data =>
    (s, if s.exists h then .done (.put h data) (.put (.ok ())) else .putReserve h data)
  | .putReserve h data => (s.reserve data.length, .putCompare h data s.storageUsed)
  | .putCompare h data prev =>
    (s, match b.add prev data.length with
      | .error e => .done (.put h data) (.put (.error e))
      | .ok sum => if s.maxStorage < sum then .putRollback h data prev else .putCreate h data)
  | .putRollback h data prev =>
    (s.release data.length, .done (.put h data) (.put (fail (.storageFull (s.maxStorage - prev)))))
  | .putCreate h data =>
    let (dir, id) := s.dir.create h
    ({ s with dir }, .putWrite h data id)
  | .putWrite h data id =>
    ({ s with dir := s.dir.write id data }, .done (.put h data) (.put (.ok ())))
  | .getExists h => (s, if s.exists h then .getRead h else .done (.get h) (.get (.ok none)))
  | .getRead h =>
    (s, match s.dir.lookup h with
      | none => .done (.get h) (.get (fail (.io .notFound "read")))
      | some f => if sha256 f.content ≠ h then .getUnlink h
        else .done (.get h) (.get (.ok (some f.content))))
  | .getUnlink h => (s.unlink h, .done (.get h) (.get (.ok none)))
  | .deleteExists h =>
    (s, if s.exists h then .deleteStat h else .done (.delete h) (.delete (.ok false)))
  | .deleteStat h => (s, .deleteUnlink h (s.statLen h))
  | .deleteUnlink h len =>
    match s.dir.lookup h with
    | none => (s, .done (.delete h) (.delete (fail (.io .notFound "remove_file"))))
    | some _ => (s.unlink h, .deleteSub h len)
  | .deleteSub h len => (s.release len, .done (.delete h) (.delete (.ok true)))
  | .done call reply => (s, .done call reply)

/-- The store and the calls made so far. -/
structure System where
  store : ChunkStore
  threads : List Pc

inductive Action
  | call (c : Call)
  | run (i : Nat)
deriving DecidableEq, Repr

def step (s : System) : Action → System
  | .call c => { s with threads := s.threads ++ [Pc.start sha256 c] }
  | .run i =>
    match s.threads[i]? with
    | none => s
    | some pc =>
      let (store, pc) := advance sha256 b s.store pc
      { store, threads := s.threads.set i pc }

end

end ChunkStore

end TesserasDht
