import TesserasDht.Chunks

/-!
# What was put can be read

Without deletes a name is only ever removed by a `get` that read bytes of another hash. A file holds
bytes of its own hash, except between the moment a `put` creates or truncates it and the moment it
writes.
-/

open Lib.Runs Lib.Files Lib.Lists

namespace TesserasDht.ChunkReads

open ChunkStore

/-! ## The condition -/

/-- The thread has the file open and will write something to it. -/
def writes (id : Nat) : Pc → Bool
  | .putWrite _ data id' => id' = id && data ≠ []
  | _ => false

/-- The file of the name was created or truncated and not written since. -/
def halfWritten (s : System) (h : Hash) : Bool :=
  (s.store.dir.lookup h).any fun f => f.content = [] && s.threads.any (writes f.id)

/-- No `get` reads a half-written file. -/
def readsWhole (s : System) : Action → Bool
  | .call _ => true
  | .run i => match s.threads[i]? with
    | some (.getRead h) => !halfWritten s h
    | _ => true

def noDelete : Action → Bool
  | .call (.delete _) => false
  | _ => true

/-! ## The invariant -/

section

variable (sha256 : Bytes → Hash) (values : List Bytes)

def Named (dir : Dir Hash UInt8) (h : Hash) : Prop := ∃ f ∈ dir.files, f.name = h

/-- Bytes of the hash that are among the values of the run. -/
def Good (h : Hash) (data : Bytes) : Prop := data ∈ values ∧ sha256 data = h

def ThreadOk (dir : Dir Hash UInt8) : Pc → Prop
  | .putExists h data => Good sha256 values h data
  | .putReserve h data => Good sha256 values h data
  | .putCompare h data _ => Good sha256 values h data
  | .putRollback _ _ _ => True
  | .putCreate h data => Good sha256 values h data
  | .putWrite h data id => Good sha256 values h data ∧ ∃ f ∈ dir.files, f.id = id ∧ f.name = h
  | .getExists _ => True
  | .getRead h => Named dir h
  | .done call reply => ∀ h data, call = .put h data → reply = .put (.ok ()) →
      Good sha256 values h data ∧ Named dir h
  | _ => False

structure Kept (s : System) : Prop where
  files : ∀ f ∈ s.store.dir.files, Good sha256 values f.name f.content ∨
    f.content = [] ∧ ∃ pc ∈ s.threads, writes f.id pc = true
  threads : ∀ pc ∈ s.threads, ThreadOk sha256 values s.store.dir pc

/-! ## The directory only grows -/

/-- Every file keeps its name and its id. -/
def Grows (dir dir' : Dir Hash UInt8) : Prop :=
  ∀ f ∈ dir.files, ∃ f' ∈ dir'.files, f'.name = f.name ∧ f'.id = f.id

variable {sha256 values}

theorem Grows.refl (dir : Dir Hash UInt8) : Grows dir dir := fun f hf => ⟨f, hf, rfl, rfl⟩

theorem Grows.mapContent (dir : Dir Hash UInt8) (g : File Hash UInt8 → List UInt8) :
    Grows dir (dir.mapContent g) := fun _ hf => ⟨_, List.mem_map_of_mem hf, rfl, rfl⟩

theorem Grows.create (dir : Dir Hash UInt8) (h : Hash) : Grows dir (dir.create h).1 := by
  cases hf : dir.lookup h with
  | none =>
    rw [Dir.create_of_none hf]
    intro f hmem
    exact ⟨f, (Dir.mem_add (Dir.lookup_none.mp hf)).mpr (Or.inl hmem), rfl, rfl⟩
  | some f =>
    rw [Dir.create_of_some hf]
    exact Grows.mapContent dir _

theorem Named.grows {dir dir' : Dir Hash UInt8} {h : Hash} (hn : Named dir h) (hg : Grows dir dir') :
    Named dir' h := by
  obtain ⟨f, hf, rfl⟩ := hn
  obtain ⟨f', hf', hname, -⟩ := hg f hf
  exact ⟨f', hf', hname⟩

theorem ThreadOk.grows {dir dir' : Dir Hash UInt8} {pc : Pc} (h : ThreadOk sha256 values dir pc)
    (hg : Grows dir dir') : ThreadOk sha256 values dir' pc := by
  cases pc with
  | putWrite n data id =>
    obtain ⟨hgood, f, hf, rfl, rfl⟩ := h
    obtain ⟨f', hf', hname, hid⟩ := hg f hf
    exact ⟨hgood, f', hf', hid, hname⟩
  | getRead n => exact Named.grows h hg
  | done call reply =>
    intro n data hcall hreply
    exact ⟨(h n data hcall hreply).1, (h n data hcall hreply).2.grows hg⟩
  | _ => exact h

/-! ## One step -/

variable {b : Build} {s : System} {i : Nat}

theorem Kept.set (hs : Kept sha256 values s) {pc' : Pc} (store : ChunkStore)
    (hfiles : ∀ f ∈ store.dir.files, Good sha256 values f.name f.content ∨
      f.content = [] ∧ ∃ qc ∈ s.threads.set i pc', writes f.id qc = true)
    (hgrows : Grows s.store.dir store.dir) (hpc : ThreadOk sha256 values store.dir pc') :
    Kept sha256 values ⟨store, s.threads.set i pc'⟩ := by
  refine ⟨hfiles, ?_⟩
  intro qc hqc
  rcases List.mem_or_eq_of_mem_set hqc with hqc | rfl
  · exact (hs.threads qc hqc).grows hgrows
  · exact hpc

theorem writer_stays {pc : Pc} (hi : s.threads[i]? = some pc) {id : Nat} (hpc : writes id pc = false)
    (h : ∃ qc ∈ s.threads, writes id qc = true) (pc' : Pc) :
    ∃ qc ∈ s.threads.set i pc', writes id qc = true := by
  obtain ⟨qc, hqc, hw⟩ := h
  refine ⟨qc, mem_set_of_ne hi hqc ?_ pc', hw⟩
  rintro rfl
  rw [hpc] at hw
  cases hw

/-- A thread goes on, and at most the counter changes. -/
theorem Kept.goto (hs : Kept sha256 values s) {pc pc' : Pc} (hi : s.threads[i]? = some pc)
    (hwrites : ∀ id, writes id pc = false) (used : Nat)
    (hpc : ThreadOk sha256 values s.store.dir pc') :
    Kept sha256 values ⟨{ s.store with storageUsed := used }, s.threads.set i pc'⟩ := by
  apply hs.set { s.store with storageUsed := used } _ (Grows.refl _) hpc
  intro f hf
  rcases hs.files f hf with hgood | ⟨hempty, hw⟩
  · exact Or.inl hgood
  · exact Or.inr ⟨hempty, writer_stays hi (hwrites f.id) hw pc'⟩

theorem new_file {pc : Pc} (hi : s.threads[i]? = some pc) {h : Hash} {data : Bytes}
    (hgood : Good sha256 values h data) (id : Nat) :
    Good sha256 values h [] ∨
      ([] : Bytes) = [] ∧ ∃ qc ∈ s.threads.set i (.putWrite h data id), writes id qc = true := by
  by_cases hdata : data = []
  · exact Or.inl (hdata ▸ hgood)
  · refine Or.inr ⟨rfl, _, List.mem_set (List.getElem?_eq_some_iff.mp hi).1 _, ?_⟩
    simp [writes, hdata]

theorem Kept.create (hs : Kept sha256 values s) {h : Hash} {data : Bytes}
    (hi : s.threads[i]? = some (.putCreate h data)) :
    Kept sha256 values ⟨(advance sha256 b s.store (.putCreate h data)).1,
      s.threads.set i (advance sha256 b s.store (.putCreate h data)).2⟩ := by
  have hgood : Good sha256 values h data := hs.threads _ (List.mem_of_getElem? hi)
  have hgrows := Grows.create s.store.dir h
  simp only [advance]
  cases hf : s.store.dir.lookup h with
  | none =>
    have hfree := Dir.lookup_none.mp hf
    rw [Dir.create_of_none hf] at hgrows ⊢
    apply hs.set _ _ hgrows
    · exact ⟨hgood, _, (Dir.mem_add hfree).mpr (Or.inr rfl), rfl, rfl⟩
    · intro f hmem
      rcases (Dir.mem_add hfree).mp hmem with hmem | rfl
      · exact (hs.files f hmem).imp_right (And.imp_right fun hw => writer_stays hi rfl hw _)
      · exact new_file hi hgood _
  | some f =>
    obtain ⟨hmem, hname⟩ := Dir.lookup_some.mp hf
    rw [Dir.create_of_some hf] at hgrows ⊢
    apply hs.set _ _ hgrows
    · exact ⟨hgood, _, List.mem_map_of_mem hmem, rfl, hname⟩
    · intro g' hg'
      obtain ⟨g, hg, rfl⟩ := Dir.mem_mapContent hg'
      by_cases hgname : g.name = h
      · cases List.inj_on_of_nodup_map s.store.dir.names hg hmem (hgname.trans hname.symm)
        dsimp only
        rw [if_pos hname, hname]
        exact new_file hi hgood _
      · dsimp only
        rw [if_neg hgname]
        exact (hs.files g hg).imp_right (And.imp_right fun hw => writer_stays hi rfl hw _)

theorem Good.eq (hhash : CollisionFree sha256 values) {h : Hash} {x y : Bytes}
    (hx : Good sha256 values h x) (hy : Good sha256 values h y) : x = y :=
  hhash x hx.1 y hy.1 (hx.2.trans hy.2.symm)

theorem Kept.write (hs : Kept sha256 values s) (hhash : CollisionFree sha256 values) {h : Hash}
    {data : Bytes} {id : Nat} (hi : s.threads[i]? = some (.putWrite h data id)) :
    Kept sha256 values ⟨(advance sha256 b s.store (.putWrite h data id)).1,
      s.threads.set i (advance sha256 b s.store (.putWrite h data id)).2⟩ := by
  obtain ⟨hgood, f, hf, rfl, rfl⟩ := hs.threads _ (List.mem_of_getElem? hi)
  have hgrows : Grows s.store.dir (s.store.dir.write f.id data) := Grows.mapContent _ _
  simp only [advance]
  apply hs.set _ _ hgrows
  · rintro n data' ⟨⟩ -
    exact ⟨hgood, Named.grows ⟨f, hf, rfl⟩ hgrows⟩
  · intro g' hg'
    obtain ⟨g, hg, rfl⟩ := Dir.mem_mapContent hg'
    dsimp only
    by_cases hid : g.id = f.id
    · -- the file is empty, or another `put` wrote the same bytes
      cases List.inj_on_of_nodup_map s.store.dir.ids hg hf hid
      rw [if_pos rfl]
      have hcontent : data ++ f.content.drop data.length = data := by
        rcases hs.files f hf with hsame | ⟨hempty, -⟩
        · rw [hsame.eq hhash hgood, List.drop_length, List.append_nil]
        · rw [hempty, List.drop_nil, List.append_nil]
      rw [hcontent]
      exact Or.inl hgood
    · rw [if_neg hid]
      apply (hs.files g hg).imp_right (And.imp_right fun hw => writer_stays hi _ hw _)
      simp [writes, Ne.symm hid]

theorem Kept.read (hs : Kept sha256 values s) {h : Hash} {f : File Hash UInt8}
    (hf : s.store.dir.lookup h = some f) (hwhole : !halfWritten s h) :
    Good sha256 values h f.content := by
  obtain ⟨hmem, rfl⟩ := Dir.lookup_some.mp hf
  rcases hs.files f hmem with hgood | ⟨hempty, hw⟩
  · exact hgood
  · have hhalf : halfWritten s f.name = true := by
      simp only [halfWritten, hf, Option.any_some, hempty, decide_true, Bool.true_and]
      exact List.any_eq_true.mpr hw
    rw [hhalf] at hwhole
    cases hwhole

theorem named_of_exists {h : Hash} (hex : s.store.exists h = true) : Named s.store.dir h := by
  obtain ⟨f, hf⟩ := Option.isSome_iff_exists.mp hex
  obtain ⟨hmem, hname⟩ := Dir.lookup_some.mp hf
  exact ⟨f, hmem, hname⟩

theorem Kept.run (hs : Kept sha256 values s) (hhash : CollisionFree sha256 values) {pc : Pc}
    (hi : s.threads[i]? = some pc) (hok : readsWhole s (.run i)) :
    Kept sha256 values
      ⟨(advance sha256 b s.store pc).1, s.threads.set i (advance sha256 b s.store pc).2⟩ := by
  have hpc := hs.threads pc (List.mem_of_getElem? hi)
  simp only [readsWhole, hi] at hok
  cases pc with
  | putExists h data =>
    simp only [advance]
    split
    next hex =>
      apply hs.goto hi (fun _ => rfl) s.store.storageUsed
      rintro n data' ⟨⟩ -
      exact ⟨hpc, named_of_exists hex⟩
    next => exact hs.goto hi (fun _ => rfl) s.store.storageUsed hpc
  | putReserve h data => exact hs.goto hi (fun _ => rfl) _ hpc
  | putCompare h data prev =>
    simp only [advance]
    split
    · exact hs.goto hi (fun _ => rfl) s.store.storageUsed (by rintro _ _ ⟨⟩ ⟨⟩)
    · split
      · exact hs.goto hi (fun _ => rfl) s.store.storageUsed trivial
      · exact hs.goto hi (fun _ => rfl) s.store.storageUsed hpc
  | putRollback h data prev => exact hs.goto hi (fun _ => rfl) _ (by rintro _ _ ⟨⟩ ⟨⟩)
  | putCreate h data => exact hs.create hi
  | putWrite h data id => exact hs.write hhash hi
  | getExists h =>
    simp only [advance]
    split
    next hex => exact hs.goto hi (fun _ => rfl) s.store.storageUsed (named_of_exists hex)
    next => exact hs.goto hi (fun _ => rfl) s.store.storageUsed (by rintro _ _ ⟨⟩ ⟨⟩)
  | getRead h =>
    simp only [advance]
    split
    · exact hs.goto hi (fun _ => rfl) s.store.storageUsed (by rintro _ _ ⟨⟩ ⟨⟩)
    next f hf =>
      have hgood := hs.read hf hok
      rw [if_neg (not_not.mpr hgood.2)]
      exact hs.goto hi (fun _ => rfl) s.store.storageUsed (by rintro _ _ ⟨⟩ ⟨⟩)
  | done call reply => exact hs.goto hi (fun _ => rfl) s.store.storageUsed hpc
  | _ => exact absurd hpc id

theorem Kept.call (hs : Kept sha256 values s) (c : Call) (hdel : ∀ h, c ≠ .delete h)
    (hput : ∀ data, c = .put (sha256 data) data → data ∈ values) :
    Kept sha256 values { s with threads := s.threads ++ [Pc.start sha256 c] } := by
  refine ⟨?_, ?_⟩
  · intro f hf
    apply (hs.files f hf).imp_right (And.imp_right _)
    rintro ⟨qc, hqc, hw⟩
    exact ⟨qc, List.mem_append_left _ hqc, hw⟩
  · intro pc hmem
    rcases List.mem_append.mp hmem with hmem | hmem
    · exact hs.threads pc hmem
    · rw [List.mem_singleton.mp hmem]
      rcases start_cases sha256 c with ⟨r, h⟩ | ⟨data, hc, h⟩ | ⟨n, -, h⟩ | ⟨n, hc, h⟩ <;> rw [h]
      · intro _ _ _ hreply
        cases hreply
      · exact ⟨hput data hc, rfl⟩
      · trivial
      · exact absurd hc (hdel n)

theorem Kept.step (hhash : CollisionFree sha256 values) {as : List Action}
    (hdel : ∀ a ∈ as, noDelete a) (hput : ∀ data ∈ puts sha256 as, data ∈ values) :
    ∀ s a, Kept sha256 values s → (readsWhole s a ∧ a ∈ as) →
      Kept sha256 values (ChunkStore.step sha256 b s a) := by
  apply step_keeps (I := Kept sha256 values) (fun s a => readsWhole s a ∧ a ∈ as)
  · rintro s c hs ⟨-, hc⟩
    apply hs.call c
    · rintro h rfl
      cases hdel _ hc
    · rintro data rfl
      exact hput data (mem_puts sha256 hc)
  · rintro s i pc hs hi ⟨hok, -⟩
    exact hs.run hhash hi hok

/-! ## A `get` and the steps around it -/

theorem advance_grows {pc : Pc} (hpc : ThreadOk sha256 values s.store.dir pc) :
    Grows s.store.dir (advance sha256 b s.store pc).1.dir := by
  cases pc with
  | putCreate h data => exact Grows.create _ _
  | putWrite h data id => exact Grows.mapContent _ _
  | putExists h data => exact Grows.refl _
  | putReserve h data => exact Grows.refl _
  | putCompare h data prev => exact Grows.refl _
  | putRollback h data prev => exact Grows.refl _
  | getExists h => exact Grows.refl _
  | getRead h => exact Grows.refl _
  | done call reply => exact Grows.refl _
  | _ => exact absurd hpc id

/-- Where a `get` of `h` stands after `n` of its own steps when it finds `data`. -/
def getPc (h : Hash) (data : Bytes) : Nat → Pc
  | 0 => .getExists h
  | 1 => .getRead h
  | _ => .done (.get h) (.get (.ok (some data)))

theorem Named.exists {h : Hash} (hn : Named s.store.dir h) : s.store.exists h = true := by
  obtain ⟨f, hf, hname⟩ := hn
  exact Option.isSome_iff_exists.mpr ⟨f, Dir.lookup_some.mpr ⟨hf, hname⟩⟩

theorem advance_getPc (hs : Kept sha256 values s) (hhash : CollisionFree sha256 values) {h : Hash}
    {data : Bytes} (hgood : Good sha256 values h data) (hn : Named s.store.dir h) {n : Nat}
    (hi : s.threads[i]? = some (getPc h data n)) (hok : readsWhole s (.run i)) :
    (advance sha256 b s.store (getPc h data n)).2 = getPc h data (n + 1) := by
  match n with
  | 0 => simp [getPc, advance, hn.exists]
  | 1 =>
    simp only [readsWhole, hi, getPc] at hok
    obtain ⟨f, hf⟩ := Option.isSome_iff_exists.mp hn.exists
    have hread := hs.read hf hok
    simp only [getPc, advance, hf, hread.eq hhash hgood, hgood.2, ne_eq, not_true_eq_false, if_false]
  | n + 2 => rfl

theorem step_getPc (hs : Kept sha256 values s) (hhash : CollisionFree sha256 values) {h : Hash}
    {data : Bytes} (hgood : Good sha256 values h data) (hn : Named s.store.dir h) {j n : Nat}
    (hj : s.threads[j]? = some (getPc h data n)) (a : Action) (hok : readsWhole s a) :
    Named (ChunkStore.step sha256 b s a).store.dir h ∧
    (ChunkStore.step sha256 b s a).threads[j]? =
      some (getPc h data (n + [a].count (.run j))) := by
  have hlt : j < s.threads.length := (List.getElem?_eq_some_iff.mp hj).1
  cases a with
  | call c =>
    refine ⟨hn, ?_⟩
    simp only [ChunkStore.step]
    rw [List.getElem?_append_left hlt, hj]
    simp
  | run i =>
    simp only [ChunkStore.step]
    split
    next hnone =>
      refine ⟨hn, ?_⟩
      have hne : i ≠ j := by
        rintro rfl
        rw [hj] at hnone
        cases hnone
      simp [hj, hne]
    next pc hi =>
      refine ⟨hn.grows (advance_grows (hs.threads pc (List.mem_of_getElem? hi))), ?_⟩
      dsimp only
      by_cases hij : i = j
      · subst hij
        cases hj.symm.trans hi
        rw [List.getElem?_set_self hlt, advance_getPc hs hhash hgood hn hj hok]
        simp
      · rw [List.getElem?_set_ne hij, hj]
        simp [hij]

theorem run_getPc (hhash : CollisionFree sha256 values) {as : List Action}
    (hdel : ∀ a ∈ as, noDelete a) (hput : ∀ data ∈ puts sha256 as, data ∈ values) {h : Hash}
    {data : Bytes} (hgood : Good sha256 values h data) {j : Nat} (bs : List Action) (hbs : bs ⊆ as) :
    ∀ (s : System) (n : Nat), Kept sha256 values s → Named s.store.dir h →
      s.threads[j]? = some (getPc h data n) →
      Meets (ChunkStore.step sha256 b) (fun s a => readsWhole s a) s bs →
      (Lib.Runs.run (ChunkStore.step sha256 b) s bs).threads[j]? =
        some (getPc h data (n + bs.count (.run j))) := by
  induction bs with
  | nil => intro s n _ _ hj _; exact hj
  | cons a bs ih =>
    intro s n hs hn hj hok
    rw [List.cons_subset] at hbs
    have hs' := Kept.step (b := b) hhash hdel hput s a hs ⟨hok.1, hbs.1⟩
    obtain ⟨hn', hj'⟩ := step_getPc (b := b) hs hhash hgood hn hj a hok.1
    have := ih hbs.2 _ _ hs' hn' hj' hok.2
    rw [run_cons, this, Nat.add_assoc, ← List.count_append]
    rfl

end

/-! ## Whole runs -/

theorem Kept.new {sha256 : Bytes → Hash} {values : List Bytes} (maxStorage : UInt64)
    (dir : Dir Hash UInt8) (hintact : ∀ f ∈ dir.files, sha256 f.content = f.name)
    (hvalues : ∀ f ∈ dir.files, f.content ∈ values) :
    Kept sha256 values (.new maxStorage dir) where
  files := fun f hf => Or.inl ⟨hvalues f hf, hintact f hf⟩
  threads := by simp [System.new]

/-- Runs of puts and gets from a store of intact files in which no `get` reads a half-written file.
Once a `put` of `data` has returned, a `get` that starts then finds the file at its first step and
returns `data` at its second. -/
theorem get_after_put (sha256 : Bytes → Hash) (b : Build) (maxStorage : UInt64) (dir : Dir Hash UInt8)
    (hintact : ∀ f ∈ dir.files, sha256 f.content = f.name) (before after : List Action) (h : Hash)
    (data : Bytes) (hdel : ∀ a ∈ before ++ .call (.get h) :: after, noDelete a)
    (hhash : CollisionFree sha256
      (dir.files.map File.content ++ puts sha256 (before ++ .call (.get h) :: after)))
    (hok : Meets (step sha256 b) (fun s a => readsWhole s a) (.new maxStorage dir)
      (before ++ .call (.get h) :: after))
    (hput : .done (.put h data) (.put (.ok ())) ∈
      (run (step sha256 b) (.new maxStorage dir) before).threads) :
    let j := (run (step sha256 b) (.new maxStorage dir) before).threads.length
    (run (step sha256 b) (.new maxStorage dir) (before ++ .call (.get h) :: after)).threads[j]? =
      some (getPc h data (after.count (.run j))) := by
  intro j
  have hputs : ∀ x ∈ puts sha256 (before ++ .call (.get h) :: after),
      x ∈ dir.files.map File.content ++ puts sha256 (before ++ .call (.get h) :: after) :=
    fun x hx => List.mem_append_right _ hx
  have hstep := Kept.step (b := b) hhash hdel hputs
  have hnew := Kept.new maxStorage dir hintact
    (fun f hf => List.mem_append_left (puts sha256 (before ++ .call (.get h) :: after))
      (List.mem_map_of_mem (f := File.content) hf))
  obtain ⟨hbefore, hcall, -⟩ := (meets_append _ _ _).mp (meets_mem hok)
  obtain ⟨-, -, hafter⟩ := (meets_append _ _ _).mp hok
  have hkept := run_inv hstep hnew hbefore
  -- the `put` that returned says that the file is there
  obtain ⟨hgood, hnamed⟩ := hkept.threads _ hput h data rfl rfl
  rw [run_append, run_cons]
  have hrun := run_getPc hhash hdel hputs hgood (j := j) after
    (fun a ha => List.mem_append_right _ (List.mem_cons_of_mem _ ha)) _ 0 (hstep _ _ hkept hcall)
    hnamed (by simp [ChunkStore.step, Pc.start, getPc, j]) hafter
  rw [hrun, Nat.zero_add]

/-- Two threads put one chunk, and a third one reads it while the second put goes on. -/
def beforeGet : List Action :=
  [.call (Call.putOf [1]), .call (Call.putOf [1]), .run 0, .run 1] ++ Action.runs 0 4 ++
    Action.runs 1 2

theorem get_after_put_second_put :
    (run (step Sha256.digest .release) (.new 100 Dir.empty) (beforeGet ++
      .call (.get (Sha256.digest [1])) :: [.run 2, .run 2, .run 1, .run 1])).threads[2]? =
      some (.done (.get (Sha256.digest [1])) (.get (.ok (some [1])))) := by
  have hget := get_after_put Sha256.digest .release 100 Dir.empty (by simp [Dir.empty]) beforeGet
    [.run 2, .run 2, .run 1, .run 1] (Sha256.digest [1]) [1] (by decide +kernel) (by decide +kernel)
    (by decide +kernel) (by decide +kernel)
  have hj : (run (step Sha256.digest .release) (.new 100 Dir.empty) beforeGet).threads.length = 2 := by
    decide +kernel
  simp only [hj] at hget
  exact hget

/-- A `get` reads the file before the `put` has written it, the `put` returns `Ok`, and the `get`
removes the file. The next `get` finds nothing. -/
theorem half_written_file_is_removed :
    let before := [.call (Call.putOf [1])] ++ Action.runs 0 4 ++ [.call (.get (Sha256.digest [1]))] ++
      Action.runs 1 2 ++ [.run 0]
    let after := [.run 1, .run 2]
    .done (Call.putOf [1]) (.put (.ok ())) ∈
      (run (step Sha256.digest .release) (.new 100 Dir.empty) before).threads ∧
    (run (step Sha256.digest .release) (.new 100 Dir.empty)
      (before ++ .call (.get (Sha256.digest [1])) :: after)).threads[2]? =
      some (.done (.get (Sha256.digest [1])) (.get (.ok none))) := by
  decide +kernel

end TesserasDht.ChunkReads
