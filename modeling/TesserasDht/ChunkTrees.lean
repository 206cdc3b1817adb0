import TesserasDht.Code.ChunkTree
import TesserasDht.Lib.Simulation

/-!
# The directories behave as the store that has only names

Whatever is called, and whatever happens to the files and to the process in between, the store on its
directories answers as the store over named files, and a scan at startup counts the files it can read.
-/

open Lib.Files Lib.Lists Lib.Runs Lib.Trees

namespace TesserasDht.ChunkTrees

open ChunkStore

/-! ## Paths -/

theorem hexDigit_inj {m n : Fin 16} (h : hexDigit m = hexDigit n) : m = n := by
  revert m n
  decide

theorem hexByte_inj {b c : UInt8} (h : hexByte b = hexByte c) : b = c := by
  simp only [hexByte, List.cons.injEq, and_true] at h
  have hhigh := Fin.val_eq_of_eq (hexDigit_inj h.1)
  have hlow := Fin.val_eq_of_eq (hexDigit_inj h.2)
  refine UInt8.toNat_inj.mp ?_
  dsimp only at hhigh hlow
  omega

theorem hexEncode_inj {bytes bytes' : Bytes} (h : hexEncode bytes = hexEncode bytes') : bytes = bytes' := by
  induction bytes generalizing bytes' with
  | nil =>
    cases bytes' with
    | nil => rfl
    | cons b rest => simp [hexEncode, hexByte] at h
  | cons b rest ih =>
    cases bytes' with
    | nil => simp [hexEncode, hexByte] at h
    | cons c rest' =>
      rw [hexEncode, hexEncode, List.flatMap_cons, List.flatMap_cons] at h
      obtain ⟨hbyte, hrest⟩ := List.append_inj h rfl
      rw [hexByte_inj hbyte, ih hrest]

theorem chunkPath_injective : Function.Injective chunkPath := by
  intro hash hash' h
  simp only [chunkPath, List.cons.injEq, and_true] at h
  exact bytes_inj (hexEncode_inj (List.append_cancel_right h.2.2))

theorem chunkPath_length (hash : Hash) : (chunkPath hash).length = 3 := rfl

/-! ## Histories -/

inductive Event
  | put (io : Faults) (made : Nat) (hash : Hash) (data : Bytes)
  | get (io : Faults) (hash : Hash)
  | has (hash : Hash)
  | delete (io : Faults) (dirLen : Nat) (hash : Hash)
  /-- The file of the chunk gets other bytes. -/
  | corrupt (hash : Hash) (bytes : Bytes)
  /-- A new process on the same disk. -/
  | reopen (maxStorage : Nat) (scan : Scan)

inductive Answer
  | put (r : Outcome Unit)
  | get (r : Outcome (Option Bytes))
  | has (r : Bool)
  | delete (r : Outcome Bool)
  | corrupted
  /-- The bytes in use. -/
  | opened (r : Outcome Nat)
deriving DecidableEq

section

variable (sha256 : Bytes → Hash) (b : Build)

def treeStep (s : ChunkTree) : Event → Answer × ChunkTree
  | .put io made hash data =>
    let (r, s) := s.putSync sha256 b io made hash data
    (.put r, s)
  | .get io hash =>
    let (r, s) := s.getSync sha256 io hash
    (.get r, s)
  | .has hash => (.has (s.has hash), s)
  | .delete io dirLen hash =>
    let (r, s) := s.deleteSync io dirLen hash
    (.delete r, s)
  | .corrupt hash bytes =>
    let files := s.tree.files.mapContent fun f => if f.name = chunkPath hash then bytes else f.content
    (.corrupted, { s with tree := { s.tree with files } })
  | .reopen maxStorage scan =>
    match ChunkTree.new b scan maxStorage s.tree with
    | .ok s => (.opened (.ok s.storageUsed), s)
    | .error e => (.opened (.error e), s)

/-- The scan can read the file and the directories to it. -/
def readable (scan : Scan) (hash : Hash) : Bool := Tree.clear scan.unreadable 0 (chunkPath hash)

/-- The bytes of the files that the scan can read. -/
def scanned (scan : Scan) (dir : Dir Hash UInt8) : Nat :=
  dir.total fun f => if readable scan f.name then f.content.length else 0

def flatStep (s : ChunkStore) : Event → Answer × ChunkStore
  | .put io _ hash data =>
    let (r, s) := s.putSync sha256 b io hash data
    (.put r, s)
  | .get io hash =>
    let (r, s) := s.getSync sha256 io hash
    (.get r, s)
  | .has hash => (.has (s.exists hash), s)
  | .delete io _ hash =>
    let (r, s) := s.deleteSync io hash
    (.delete r, s)
  | .corrupt hash bytes =>
    (.corrupted, { s with dir := s.dir.mapContent fun f => if f.name = hash then bytes else f.content })
  | .reopen maxStorage scan =>
    (.opened (.ok (scanned scan s.dir)), { maxStorage, storageUsed := scanned scan s.dir, dir := s.dir })

end

/-- What is on the disk when a process starts is less than `2^64` bytes. -/
def Fits (s : ChunkStore) : Event → Prop
  | .reopen _ _ => s.dir.size < wordSize
  | _ => True

instance (s : ChunkStore) : (e : Event) → Decidable (Fits s e)
  | .reopen _ _ => inferInstanceAs (Decidable (s.dir.size < wordSize))
  | .put .. | .get .. | .has _ | .delete .. | .corrupt .. => isTrue trivial

/-! ## One step -/

/-- The same files under their paths, with directories no deeper than those of a chunk. -/
structure Shows (s : ChunkStore) (t : ChunkTree) : Prop where
  maxStorage : t.maxStorage = s.maxStorage
  storageUsed : t.storageUsed = s.storageUsed
  files : t.tree.files = s.dir.rename chunkPath chunkPath_injective
  sound : t.tree.Sound
  shallow : ∀ p ∈ t.tree.dirs, p.length ≤ 2

namespace Shows

variable {sha256 : Bytes → Hash} {b : Build} {s : ChunkStore} {t : ChunkTree} {hash : Hash}

theorem lookup_eq (h : Shows s t) (hash : Hash) :
    t.tree.files.lookup (chunkPath hash) = (s.dir.lookup hash).map (File.rename chunkPath) := by
  rw [h.files, Dir.lookup_rename]

theorem not_dir (h : Shows s t) (hash : Hash) : t.tree.isDir (chunkPath hash) = false := by
  refine Bool.eq_false_iff.mpr fun hdir => ?_
  rcases Tree.isDir_iff.mp hdir with hnil | hmem
  · cases hnil
  · have hlength := h.shallow _ hmem
    rw [chunkPath_length] at hlength
    omega

theorem exists_eq (h : Shows s t) (hash : Hash) : t.tree.exists (chunkPath hash) = s.exists hash := by
  rw [Tree.exists, h.not_dir, h.lookup_eq, ChunkStore.exists]
  cases s.dir.lookup hash <;> rfl

theorem reserve (h : Shows s t) (size : Nat) : Shows (s.reserve size) (t.reserve size) :=
  ⟨h.maxStorage, congrArg (fetchAdd · size) h.storageUsed, h.files, h.sound, h.shallow⟩

theorem release (h : Shows s t) (size : Nat) : Shows (s.release size) (t.release size) :=
  ⟨h.maxStorage, congrArg (fetchSub · size) h.storageUsed, h.files, h.sound, h.shallow⟩

/-- Other files, if each is in a directory. -/
theorem withFiles (h : Shows s t) {dir : Dir Hash UInt8} (hdir : ∀ f ∈ dir.files,
    (∃ f' ∈ s.dir.files, f.name = f'.name) ∨ t.tree.isDir (chunkPath f.name).dropLast = true) :
    Shows { s with dir } { t with tree := { t.tree with files := dir.rename chunkPath chunkPath_injective } } := by
  refine ⟨h.maxStorage, h.storageUsed, rfl, h.sound.withFiles fun path hpath => ?_, h.shallow⟩
  obtain ⟨f, hf, rfl⟩ := List.mem_map.mp hpath
  rcases hdir f hf with ⟨f', hf', hname⟩ | hparent
  · refine Or.inl ⟨f'.rename chunkPath, ?_, congrArg chunkPath hname⟩
    rw [h.files]
    exact List.mem_map_of_mem hf'
  · refine Or.inr ⟨fun hmem => ?_, List.cons_ne_nil _ _, hparent⟩
    have hlength := h.shallow _ hmem
    change (chunkPath f.name).length ≤ 2 at hlength
    rw [chunkPath_length] at hlength
    omega

theorem names_of_prefix (h : Shows s t) {p : List (List Char)} (hp : p.length ≤ 2) :
    ∀ q, q <+: p → ∀ f ∈ t.tree.files.files, f.name ≠ q := by
  rintro q hprefix f hf rfl
  rw [h.files] at hf
  obtain ⟨f, -, rfl⟩ := List.mem_map.mp hf
  have hlength := hprefix.length_le
  change (chunkPath f.name).length ≤ _ at hlength
  rw [chunkPath_length] at hlength
  omega

theorem makeDirs (h : Shows s t) {p : List (List Char)} (hp : p.length ≤ 2) :
    Shows s { t with tree := t.tree.makeDirs p } ∧ (t.tree.makeDirs p).isDir p = true := by
  obtain ⟨hsound, hdir, hfiles, hmem⟩ := Tree.makeDirs_spec h.sound (h.names_of_prefix hp)
  refine ⟨⟨h.maxStorage, h.storageUsed, hfiles.trans h.files, hsound, fun q hq => ?_⟩, hdir⟩
  rcases hmem q hq with hold | hprefix
  · exact h.shallow q hold
  · exact hprefix.length_le.trans hp

theorem createDirAll (h : Shows s t) {p : List (List Char)} (hp : p.length ≤ 2) :
    t.tree.createDirAll p = some (t.tree.makeDirs p) := by
  rw [Tree.createDirAll, if_neg]
  intro hany
  obtain ⟨q, hq, hfile⟩ := List.any_eq_true.mp hany
  obtain ⟨f, hf⟩ := Option.isSome_iff_exists.mp hfile
  obtain ⟨hmem, rfl⟩ := Dir.lookup_some.mp hf
  exact h.names_of_prefix hp _ ((List.mem_inits _ _).mp hq) f hmem rfl

/-- Opening a file whose directory is there. -/
theorem create (h : Shows s t) (hparent : t.tree.isDir (chunkPath hash).dropLast = true) :
    t.tree.create (chunkPath hash) =
      some ({ t.tree with files := (s.dir.create hash).1.rename chunkPath chunkPath_injective },
        (s.dir.create hash).2) := by
  rw [Tree.create, h.not_dir, hparent, h.files, Dir.create_rename]
  rfl

theorem written (h : Shows s t) (hparent : t.tree.isDir (chunkPath hash).dropLast = true)
    (hnew : s.dir.lookup hash = none) (data : Bytes) :
    Shows { s with dir := (s.dir.create hash).1.write (s.dir.create hash).2 data }
      { t with tree := { t.tree with
        files := ((s.dir.create hash).1.rename chunkPath chunkPath_injective).write (s.dir.create hash).2 data } } := by
  rw [Dir.write_rename]
  refine h.withFiles fun f hf => ?_
  obtain ⟨f', hf', rfl⟩ := Dir.mem_mapContent hf
  rw [Dir.create_of_none hnew] at hf'
  rcases (Dir.mem_add (Dir.lookup_none.mp hnew)).mp hf' with hold | rfl
  · exact Or.inl ⟨f', hold, rfl⟩
  · exact Or.inr hparent

theorem unlink (h : Shows s t) (hash : Hash) : Shows (s.unlink hash) (t.unlink (chunkPath hash)) := by
  have hunlinked := @withFiles _ _ h (s.dir.unlink hash) fun f hf => Or.inl ⟨f, (Dir.mem_unlink.mp hf).1, rfl⟩
  rw [← Dir.unlink_rename, ← h.files] at hunlinked
  exact hunlinked

theorem put (h : Shows s t) (io : Faults) (made : Nat) (hash : Hash) (data : Bytes) :
    (s.putSync sha256 b io hash data).1 = (t.putSync sha256 b io made hash data).1 ∧
      Shows (s.putSync sha256 b io hash data).2 (t.putSync sha256 b io made hash data).2 := by
  have hparent : (chunkPath hash).dropLast.length ≤ 2 := Nat.le_refl 2
  unfold ChunkStore.putSync ChunkTree.putSync
  by_cases hlen : maxChunkSize < data.length
  · rw [if_pos hlen, if_pos hlen]
    exact ⟨rfl, h⟩
  by_cases hsha : sha256 data ≠ hash
  · rw [if_neg hlen, if_neg hlen, if_pos hsha, if_pos hsha]
    exact ⟨rfl, h⟩
  rw [if_neg hlen, if_neg hlen, if_neg hsha, if_neg hsha]
  dsimp only
  rw [h.exists_eq, h.storageUsed]
  by_cases hold : s.exists hash = true
  · rw [if_pos hold, if_pos hold]
    exact ⟨rfl, h⟩
  rw [if_neg hold, if_neg hold]
  have hnew : s.dir.lookup hash = none := by simpa [ChunkStore.exists] using hold
  have hreserved := h.reserve data.length
  cases b.add s.storageUsed data.length with
  | error e => exact ⟨rfl, hreserved⟩
  | ok sum =>
    dsimp only
    have hmax := hreserved.maxStorage
    by_cases hfull : (t.reserve data.length).maxStorage < sum
    · rw [if_pos hfull, if_pos (by rwa [← hmax]), hmax]
      exact ⟨rfl, hreserved.release _⟩
    have hroom : ¬(s.reserve data.length).maxStorage < sum := by rwa [← hmax]
    rw [if_neg hfull, if_neg hroom]
    by_cases hcreate : io.createDir = true
    · rw [if_pos hcreate, if_pos hcreate]
      have hshort : ((chunkPath hash).dropLast.take made).length ≤ 2 := by
        rw [List.length_take]
        omega
      exact ⟨rfl, (hreserved.makeDirs hshort).1.release _⟩
    rw [if_neg hcreate, if_neg hcreate, hreserved.createDirAll hparent]
    obtain ⟨hmade, hdir⟩ := hreserved.makeDirs hparent
    dsimp only
    rw [hmade.create hdir]
    cases io.write with
    | none => exact ⟨rfl, hmade.written hdir hnew data⟩
    | some fault =>
      cases fault with
      | «open» => exact ⟨rfl, hmade.release _⟩
      | content n => exact ⟨rfl, (hmade.written hdir hnew (data.take n)).release _⟩

theorem get (h : Shows s t) (io : Faults) (hash : Hash) :
    (s.getSync sha256 io hash).1 = (t.getSync sha256 io hash).1 ∧
      Shows (s.getSync sha256 io hash).2 (t.getSync sha256 io hash).2 := by
  unfold ChunkStore.getSync ChunkTree.getSync
  dsimp only
  rw [h.exists_eq, h.lookup_eq, ChunkStore.exists]
  cases s.dir.lookup hash with
  | none => exact ⟨rfl, h⟩
  | some f =>
    simp only [Option.isSome_some, if_true, Option.map_some]
    cases io.read with
    | true => exact ⟨rfl, h⟩
    | false =>
      dsimp only
      rw [if_neg Bool.false_ne_true]
      change _ = (if sha256 f.content ≠ hash then _ else _ : _ × _).1 ∧
        Shows _ (if sha256 f.content ≠ hash then _ else _ : _ × _).2
      by_cases hsha : sha256 f.content ≠ hash
      · rw [if_pos hsha, if_pos hsha]
        cases io.unlink with
        | true => exact ⟨rfl, h⟩
        | false => exact ⟨rfl, h.unlink hash⟩
      · rw [if_neg hsha, if_neg hsha]
        exact ⟨rfl, h⟩

theorem delete (h : Shows s t) (io : Faults) (dirLen : Nat) (hash : Hash) :
    (s.deleteSync io hash).1 = (t.deleteSync io dirLen hash).1 ∧
      Shows (s.deleteSync io hash).2 (t.deleteSync io dirLen hash).2 := by
  unfold ChunkStore.deleteSync ChunkTree.deleteSync ChunkStore.statLen
  dsimp only
  rw [h.exists_eq, h.lookup_eq, ChunkStore.exists]
  cases s.dir.lookup hash with
  | none => exact ⟨rfl, h⟩
  | some f =>
    simp only [Option.isSome_some, if_true, Option.map_some, Option.getD_some]
    cases io.unlink with
    | true => exact ⟨rfl, h⟩
    | false => exact ⟨rfl, (h.unlink hash).release _⟩

theorem corrupt (h : Shows s t) (hash : Hash) (bytes : Bytes) :
    Shows (flatStep sha256 b s (.corrupt hash bytes)).2 (treeStep sha256 b t (.corrupt hash bytes)).2 := by
  have hcorrupted := @withFiles _ _ h (s.dir.mapContent fun f => if f.name = hash then bytes else f.content) <| by
    intro f hf
    obtain ⟨f', hf', rfl⟩ := Dir.mem_mapContent hf
    exact Or.inl ⟨f', hf', rfl⟩
  rw [← Dir.mapContent_rename (fun f => if f.name = hash then bytes else f.content)
    (fun f => if f.name = chunkPath hash then bytes else f.content), ← h.files] at hcorrupted
  · exact hcorrupted
  · intro f
    simp [File.rename, chunkPath_injective.eq_iff]

/-! ## The scan -/

theorem foldlM_add {α : Type} {f : Nat → α → Outcome Nat} {w : α → Nat} {l : List α}
    (hf : ∀ a ∈ l, ∀ total, total + w a < wordSize → f total a = .ok (total + w a)) (total : Nat)
    (h : total + (l.map w).sum < wordSize) : l.foldlM f total = .ok (total + (l.map w).sum) := by
  induction l generalizing total with
  | nil => rfl
  | cons a l ih =>
    rw [List.map_cons, List.sum_cons] at h ⊢
    rw [List.foldlM_cons, hf a List.mem_cons_self total (by omega)]
    change l.foldlM f (total + w a) = _
    rw [ih (fun a' ha' => hf a' (List.mem_cons_of_mem a ha')) _ (by omega), Nat.add_assoc]

theorem foldlM_readDir {scan : Scan} {tree : Tree (List Char) UInt8} {p : List (List Char)}
    {f : Nat → List Char → Outcome Nat} {w : List Char → Nat}
    (hf : ∀ x total, total + w x < wordSize → f total x = .ok (total + w x)) (total : Nat)
    (h : total + (if scan.unreadable p then 0 else ((tree.readDir p).map w).sum) < wordSize) :
    (ChunkTree.readDir scan tree p).foldlM f total =
      .ok (total + if scan.unreadable p then 0 else ((tree.readDir p).map w).sum) := by
  unfold ChunkTree.readDir
  cases hp : scan.unreadable p with
  | true => rfl
  | false =>
    rw [hp] at h
    exact foldlM_add (fun x _ => hf x) total h

/-- What `metadata` says of a path. -/
def len (scan : Scan) (tree : Tree (List Char) UInt8) (path : List (List Char)) : Nat :=
  ((tree.files.lookup path).map fun f => f.content.length).getD (scan.dirLen path)

theorem addLen_eq {scan : Scan} {tree : Tree (List Char) UInt8} {path : List (List Char)} {total : Nat}
    (h : total + (if scan.unreadable path then 0 else len scan tree path) < wordSize) :
    ChunkTree.addLen b scan tree path total =
      .ok (total + if scan.unreadable path then 0 else len scan tree path) := by
  unfold ChunkTree.addLen
  cases hpath : scan.unreadable path with
  | true => rfl
  | false =>
    rw [hpath] at h
    exact b.add_of_lt h

theorem add_if {c : Bool} {r : Outcome Nat} {total n : Nat} (hr : total + n < wordSize → r = .ok (total + n))
    (h : total + (if c then n else 0) < wordSize) :
    (if c then r else .ok total) = .ok (total + if c then n else 0) := by
  cases c with
  | false => rfl
  | true => exact hr h

theorem scan_walk (scan : Scan) (tree : Tree (List Char) UInt8)
    (h : tree.walk scan.unreadable (len scan tree) 2 [] < wordSize) :
    ChunkTree.computeStorageUsedSync b scan tree = .ok (tree.walk scan.unreadable (len scan tree) 2 []) := by
  have hfiles : ∀ (p : List (List Char)) (total : Nat),
      total + tree.walk scan.unreadable (len scan tree) 0 p < wordSize → (ChunkTree.readDir scan tree p).foldlM
        (fun total file => ChunkTree.addLen b scan tree (p ++ [file]) total) total =
          .ok (total + tree.walk scan.unreadable (len scan tree) 0 p) :=
    fun p => foldlM_readDir fun _ _ => addLen_eq
  have hsub : ∀ (p : List (List Char)) (total : Nat),
      total + tree.walk scan.unreadable (len scan tree) 1 p < wordSize → (ChunkTree.readDir scan tree p).foldlM
        (fun total sub => if tree.isDir (p ++ [sub]) then
          (ChunkTree.readDir scan tree (p ++ [sub])).foldlM
            (fun total file => ChunkTree.addLen b scan tree (p ++ [sub] ++ [file]) total) total
        else .ok total) total = .ok (total + tree.walk scan.unreadable (len scan tree) 1 p) :=
    fun p => foldlM_readDir fun sub total => add_if (hfiles (p ++ [sub]) total)
  rw [← Nat.zero_add (tree.walk _ _ 2 [])] at h ⊢
  exact foldlM_readDir (fun entry total => add_if (hsub [entry] total)) 0 h

/-- The scan counts the files that it can read. -/
theorem scan_eq (h : Shows s t) (scan : Scan) (hsize : s.dir.size < wordSize) :
    ChunkTree.computeStorageUsedSync b scan t.tree = .ok (scanned scan s.dir) := by
  have hwalk : t.tree.walk scan.unreadable (len scan t.tree) 2 [] = scanned scan s.dir := by
    rw [Tree.walk_eq h.sound h.shallow 2 [] rfl, Tree.below, List.filter_eq_self.mpr ?_, h.files, scanned, Dir.total]
    · simp only [Dir.rename, List.map_map]
      congr 1
      refine List.map_congr_left fun f hf => ?_
      have hlookup := h.lookup_eq f.name
      rw [Dir.lookup_some.mpr ⟨hf, rfl⟩] at hlookup
      simp only [Function.comp_apply, len, File.rename] at hlookup ⊢
      rw [hlookup]
      rfl
    · intro path hpath
      obtain ⟨f, hf, rfl⟩ := List.mem_map.mp hpath
      rw [h.files] at hf
      obtain ⟨f, -, rfl⟩ := List.mem_map.mp hf
      exact decide_eq_true ⟨rfl, rfl⟩
  have hle : scanned scan s.dir ≤ s.dir.size := by
    refine Dir.total_mono fun f _ => ?_
    split_ifs
    · exact Nat.le_refl _
    · exact Nat.zero_le _
  rw [scan_walk, hwalk]
  rw [hwalk]
  exact Nat.lt_of_le_of_lt hle hsize

theorem step (h : Shows s t) (e : Event) (hfits : Fits s e) :
    (flatStep sha256 b s e).1 = (treeStep sha256 b t e).1 ∧
      Shows (flatStep sha256 b s e).2 (treeStep sha256 b t e).2 := by
  cases e with
  | put io made hash data =>
    obtain ⟨hanswer, hshows⟩ := @put sha256 b s t h io made hash data
    exact ⟨congrArg Answer.put hanswer, hshows⟩
  | get io hash =>
    obtain ⟨hanswer, hshows⟩ := @get sha256 s t h io hash
    exact ⟨congrArg Answer.get hanswer, hshows⟩
  | has hash => exact ⟨congrArg Answer.has (h.exists_eq hash).symm, h⟩
  | delete io dirLen hash =>
    obtain ⟨hanswer, hshows⟩ := h.delete io dirLen hash
    exact ⟨congrArg Answer.delete hanswer, hshows⟩
  | corrupt hash bytes => exact ⟨rfl, h.corrupt hash bytes⟩
  | reopen maxStorage scan =>
    have hnew : ChunkTree.new b scan maxStorage t.tree =
        .ok { maxStorage, storageUsed := scanned scan s.dir, tree := t.tree } := by
      rw [ChunkTree.new, h.scan_eq scan hfits]
      rfl
    unfold treeStep flatStep
    dsimp only
    rw [hnew]
    exact ⟨rfl, rfl, rfl, h.files, h.sound, h.shallow⟩

end Shows

/-! ## A whole history -/

/-- A store on an empty base directory. -/
def fresh (maxStorage : Nat) : ChunkTree := ⟨maxStorage, 0, .empty⟩

theorem fresh_shows (maxStorage : Nat) : Shows (ChunkStore.new maxStorage .empty) (fresh maxStorage) :=
  ⟨rfl, rfl, rfl, Tree.empty_sound, by rintro p ⟨⟩⟩

section

variable (sha256 : Bytes → Hash) (b : Build)

theorem tree_refines_names (maxStorage : Nat) (events : List Event)
    (hfits : Meets (fun s e => (flatStep sha256 b s e).2) Fits (ChunkStore.new maxStorage .empty) events) :
    answers (treeStep sha256 b) (fresh maxStorage) events =
        answers (flatStep sha256 b) (ChunkStore.new maxStorage .empty) events ∧
      Shows (run (fun s e => (flatStep sha256 b s e).2) (ChunkStore.new maxStorage .empty) events)
        (run (fun t e => (treeStep sha256 b t e).2) (fresh maxStorage) events) := by
  have hstep (s : ChunkStore) (t : ChunkTree) (e : Event) (h : Shows s t) (hfits : Fits s e) :
      (flatStep sha256 b s e).1 = (treeStep sha256 b t e).1 ∧
        Shows (flatStep sha256 b s e).2 (treeStep sha256 b t e).2 := h.step e hfits
  obtain ⟨hanswers, hshows⟩ := simulates hstep (fresh_shows maxStorage) hfits
  exact ⟨hanswers.symm, hshows⟩

end

def readsAll : Scan := ⟨fun _ => false, fun _ => 0⟩

/-- A chunk is stored, its file grows, and the next process counts it, finds it wrong and removes it. -/
def storedAndScanned : List Event :=
  [.put Faults.none 0 (Sha256.digest [7]) [7], .corrupt (Sha256.digest [7]) [7, 7], .reopen 100 readsAll,
    .get Faults.none (Sha256.digest [7]), .reopen 100 readsAll]

theorem tree_refines_names_scanned :
    answers (treeStep Sha256.digest .release) (fresh 50) storedAndScanned =
      [.put (.ok ()), .corrupted, .opened (.ok 2), .get (.ok none), .opened (.ok 0)] := by
  rw [(tree_refines_names Sha256.digest .release 50 storedAndScanned (by decide +kernel)).1]
  decide +kernel

end TesserasDht.ChunkTrees
