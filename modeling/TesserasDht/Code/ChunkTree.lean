import TesserasDht.Code.ChunkStore
import TesserasDht.Lib.Trees

/-!
# The chunk store on its directories

`src/storage/chunks.rs` once more, with the paths of `chunk_path_inner` below the base path and the scan of
`compute_storage_used_sync`.
-/

open Lib.Files Lib.Trees

namespace TesserasDht

def lowerHex : List Char := ['0', '1', '2', '3', '4', '5', '6', '7', '8', '9', 'a', 'b', 'c', 'd', 'e', 'f']

def hexDigit (n : Fin 16) : Char := lowerHex.get (n.cast rfl)

/-- The digits of one byte. -/
def hexByte (b : UInt8) : List Char :=
  [hexDigit ⟨b.toNat / 16, by have := b.toNat_lt; omega⟩, hexDigit ⟨b.toNat % 16, by omega⟩]

/-- `hex::encode`. -/
def hexEncode (bytes : Bytes) : List Char := bytes.flatMap hexByte

/-- `<base>/ab/cd/abcd...chunk`, from the base on. -/
def chunkPath (hash : Hash) : List (List Char) :=
  let hex := hexEncode hash.bytes
  [hex.take 2, (hex.drop 2).take 2, hex ++ ['.', 'c', 'h', 'u', 'n', 'k']]

structure ChunkTree where
  maxStorage : Nat
  storageUsed : Nat
  tree : Tree (List Char) UInt8

/-- What the scan at startup meets. -/
structure Scan where
  /-- `read_dir` of a directory, or `metadata` of an entry, fails. -/
  unreadable : List (List Char) → Bool
  /-- What `metadata` says of a directory. -/
  dirLen : List (List Char) → Nat

namespace ChunkTree

open ChunkStore

def reserve (s : ChunkTree) (size : Nat) : ChunkTree := { s with storageUsed := fetchAdd s.storageUsed size }

def release (s : ChunkTree) (size : Nat) : ChunkTree := { s with storageUsed := fetchSub s.storageUsed size }

def unlink (s : ChunkTree) (path : List (List Char)) : ChunkTree :=
  { s with tree := { s.tree with files := s.tree.files.unlink path } }

section

variable (sha256 : Bytes → Hash) (b : Build)

/-- When `create_dir_all` fails, it has made `made` directories. -/
def putSync (io : Faults) (made : Nat) (s : ChunkTree) (expectedHash : Hash) (data : Bytes) :
    Outcome Unit × ChunkTree :=
  if maxChunkSize < data.length then
    (fail (.io .invalidInput "chunk too large"), s)
  else if sha256 data ≠ expectedHash then
    (fail (.invalidIdentity "chunk hash mismatch"), s)
  else
    let path := chunkPath expectedHash
    if s.tree.exists path then
      (.ok (), s)
    else
      let size := data.length
      let prev := s.storageUsed
      let s := s.reserve size
      match b.add prev size with
      | .error e => (.error e, s)
      | .ok sum =>
        if s.maxStorage < sum then
          (fail (.storageFull (s.maxStorage - prev)), s.release size)
        else if io.createDir then
          (fail (.io .other "create_dir_all"), { s with tree := s.tree.makeDirs (path.dropLast.take made) }.release size)
        else
          match s.tree.createDirAll path.dropLast with
          | none => (fail (.io .other "create_dir_all"), s.release size)
          | some tree =>
            match io.write, tree.create path with
            | some .open, _ | _, none => (fail (.io .other "write"), { s with tree }.release size)
            | some (.content n), some (tree, id) =>
              (fail (.io .other "write"),
                { s with tree := { tree with files := tree.files.write id (data.take n) } }.release size)
            | none, some (tree, id) => (.ok (), { s with tree := { tree with files := tree.files.write id data } })

/-- A directory under the path cannot be read. -/
def getSync (io : Faults) (s : ChunkTree) (hash : Hash) : Outcome (Option Bytes) × ChunkTree :=
  let path := chunkPath hash
  if s.tree.exists path then
    match io.read, s.tree.files.lookup path with
    | true, _ | _, none => (fail (.io .other "read"), s)
    | false, some f =>
      if sha256 f.content ≠ hash then
        (.ok none, if io.unlink then s else s.unlink path)
      else
        (.ok (some f.content), s)
  else
    (.ok none, s)

def has (s : ChunkTree) (hash : Hash) : Bool := s.tree.exists (chunkPath hash)

def deleteSync (io : Faults) (dirLen : Nat) (s : ChunkTree) (hash : Hash) : Outcome Bool × ChunkTree :=
  let path := chunkPath hash
  if s.tree.exists path then
    let len := if io.stat then 0 else ((s.tree.files.lookup path).map fun f => f.content.length).getD dirLen
    match io.unlink, s.tree.files.lookup path with
    | true, _ | _, none => (fail (.io .other "remove_file"), s)
    | false, some _ => (.ok true, (s.unlink path).release len)
  else
    (.ok false, s)

/-- `read_dir`, if it works. -/
def readDir (scan : Scan) (t : Tree (List Char) UInt8) (path : List (List Char)) : List (List Char) :=
  if scan.unreadable path then [] else t.readDir path

/-- `total += meta.len()`, if there is metadata. -/
def addLen (scan : Scan) (t : Tree (List Char) UInt8) (path : List (List Char)) (total : Nat) : Outcome Nat :=
  if scan.unreadable path then
    .ok total
  else
    b.add total (((t.files.lookup path).map fun f => f.content.length).getD (scan.dirLen path))

def computeStorageUsedSync (scan : Scan) (t : Tree (List Char) UInt8) : Outcome Nat :=
  (readDir scan t []).foldlM (fun total entry =>
    if t.isDir [entry] then
      (readDir scan t [entry]).foldlM (fun total subEntry =>
        if t.isDir [entry, subEntry] then
          (readDir scan t [entry, subEntry]).foldlM (fun total file =>
            addLen b scan t [entry, subEntry, file] total) total
        else
          .ok total) total
    else
      .ok total) 0

def new (scan : Scan) (maxStorage : Nat) (t : Tree (List Char) UInt8) : Outcome ChunkTree := do
  let used ← computeStorageUsedSync b scan t
  return { maxStorage, storageUsed := used, tree := t }

end

end ChunkTree

end TesserasDht
