import TesserasDht.Code.Maintenance
import TesserasDht.ProviderTable

/-!
# Own records across maintenance cycles

A cycle deletes, reads and rewrites. A record whose time has not run out when it is read passes all
three, provided that the end of each record fits in the `i64` of its column.
-/

open Lib.Runs Lib.Tables TesserasDht.ProviderTable

namespace TesserasDht.OwnRecords

/-! ## Runs -/

/-- The store, the last clock reading, and when each own record was last written. -/
structure OwnRun where
  store : ProviderState
  clock : Nat
  written : List (Hash × Nat)

/-- The own record that a call writes, if it succeeds. -/
def ownKey (m : Maintainer) (s : ProviderState) : ProviderAction → Option Hash
  | .addProvider _ _ key id _ _ => if id = m.nodeId then some key else none
  | .maintain _ _ _ =>
    match s.pc with
    | .refresh (key :: _) => some key
    | _ => none

def step (m : Maintainer) (s : OwnRun) (a : ProviderAction) : OwnRun :=
  let (store, ok) := m.apply s.store a
  { store
    clock := a.now
    written := match ok, ownKey m s.store a with
      | true, some key => replace Prod.fst s.written (key, a.now)
      | _, _ => s.written }

/-- A node that starts with whatever the store holds. -/
def start (rows : List ProvidersRow) : OwnRun := ⟨⟨rows, .cleanup⟩, 0, []⟩

/-- The read of a cycle. -/
def IsRead (s : OwnRun) : ProviderAction → Prop
  | .maintain _ _ _ => s.store.pc = .read
  | .addProvider _ _ _ _ _ _ => False

instance (s : OwnRun) : ∀ a, Decidable (IsRead s a)
  | .maintain _ _ _ => inferInstanceAs (Decidable (s.store.pc = .read))
  | .addProvider _ _ _ _ _ _ => inferInstanceAs (Decidable False)

/-- The clock does not go back, the call succeeds, and a cycle reads each own record within its
`provider_ttl`. -/
def Timely (m : Maintainer) (s : OwnRun) (a : ProviderAction) : Prop :=
  s.clock ≤ a.now ∧ (m.apply s.store a).2 = true ∧
    (IsRead s a → ∀ w ∈ s.written, a.now < w.2 + m.providerTtl)

instance (m : Maintainer) (s : OwnRun) (a : ProviderAction) : Decidable (Timely m s a) := by
  unfold Timely; infer_instance

/-- The end of an own record fits in an `i64`. -/
def Fits (m : Maintainer) (s : OwnRun) (a : ProviderAction) : Prop :=
  ownKey m s.store a ≠ none → a.now + m.providerTtl < 2 ^ 63

instance (m : Maintainer) (s : OwnRun) (a : ProviderAction) : Decidable (Fits m s a) := by
  unfold Fits; infer_instance

/-! ## The rows of own records -/

/-- The row of the record that was written at `w.2`. -/
def HasRow (m : Maintainer) (rows : List ProvidersRow) (w : Hash × Nat) : Prop :=
  ∃ row ∈ rows, row.contentKey = w.1.bytes ∧ row.nodeId = m.nodeId.bytes ∧
    row.expiresAt = (w.2 + m.providerTtl : Nat)

/-- Each own record has its row. Between cleanup and read it may be gone, if its time has run out. -/
structure Kept (m : Maintainer) (s : OwnRun) : Prop where
  fits : ∀ w ∈ s.written, w.2 + m.providerTtl < 2 ^ 63
  rows : ∀ w ∈ s.written,
    HasRow m s.store.rows w ∨ s.store.pc = .read ∧ w.2 + m.providerTtl ≤ s.clock

section

variable {m : Maintainer} {s : OwnRun}

theorem addProvider_ok {now : Nat} {fails : Bool} {key : Hash} {id pk : Bytes32} {addrs : List SocketAddr}
    {rows : List ProvidersRow} (h : (m.addProvider now fails key id pk addrs rows).2 = true) :
    ∃ text e, m.build.add now m.providerTtl = .ok e ∧
      (m.addProvider now fails key id pk addrs rows).1 =
        replace ProvidersRow.key rows ⟨key.bytes, id.bytes, pk.bytes, text, toI64 e⟩ := by
  unfold Maintainer.addProvider at h ⊢
  split at h
  next => cases h
  next hf =>
    split at h
    next new hnew =>
      obtain ⟨text, -, hnew⟩ := bind_ok hnew
      obtain ⟨e, he, hnew⟩ := bind_ok hnew
      cases hnew
      exact ⟨text, e, he, by rw [if_neg hf]⟩
    next => cases h

theorem HasRow.replace_other {rows : List ProvidersRow} {w : Hash × Nat} (h : HasRow m rows w)
    {row : ProvidersRow} (hne : ¬(row.contentKey = w.1.bytes ∧ row.nodeId = m.nodeId.bytes)) :
    HasRow m (replace ProvidersRow.key rows row) w := by
  obtain ⟨r, hr, hkey, hid, he⟩ := h
  refine ⟨r, mem_replace.mpr (Or.inl ⟨hr, fun hsame => hne ?_⟩), hkey, hid, he⟩
  obtain ⟨hk, hn⟩ := Prod.mk.inj hsame
  exact ⟨hk.symm.trans hkey, hn.symm.trans hid⟩

theorem addProvider_hasRow {now : Nat} {fails : Bool} {key : Hash} {id pk : Bytes32}
    {addrs : List SocketAddr} {rows : List ProvidersRow}
    (hok : (m.addProvider now fails key id pk addrs rows).2 = true) :
    (∀ w : Hash × Nat, ¬(key = w.1 ∧ id = m.nodeId) → HasRow m rows w →
      HasRow m (m.addProvider now fails key id pk addrs rows).1 w) ∧
    (id = m.nodeId → now + m.providerTtl < 2 ^ 63 →
      HasRow m (m.addProvider now fails key id pk addrs rows).1 (key, now)) := by
  obtain ⟨text, e, he, hrows⟩ := addProvider_ok hok
  rw [hrows]
  constructor
  · intro w hne h
    refine h.replace_other fun hsame => hne ?_
    exact ⟨bytes_inj hsame.1, bytes_inj hsame.2⟩
  · rintro rfl hfits
    have hadd : m.build.add now m.providerTtl = .ok (now + m.providerTtl) :=
      m.build.add_of_lt
        (lt_trans hfits (by rw [wordSize]; exact Nat.pow_lt_pow_right (by decide) (by decide)))
    cases he.symm.trans hadd
    exact ⟨_, mem_replace.mpr (Or.inr rfl), rfl, rfl, toI64_of_lt hfits⟩

/-- After a successful own record, or one of another node. -/
theorem Kept.addProvider (h : Kept m s) {now : Nat} {fails : Bool} {key : Hash} {id pk : Bytes32}
    {addrs : List SocketAddr} (pc : MaintenancePc) (hpc : s.store.pc = .read → pc = .read)
    (hclock : s.clock ≤ now)
    (hok : (m.addProvider now fails key id pk addrs s.store.rows).2 = true)
    (hfits : id = m.nodeId → now + m.providerTtl < 2 ^ 63) :
    Kept m
      { store := ⟨(m.addProvider now fails key id pk addrs s.store.rows).1, pc⟩
        clock := now
        written := if id = m.nodeId then replace Prod.fst s.written (key, now) else s.written } := by
  obtain ⟨hkeep, hnew⟩ := addProvider_hasRow hok
  have hold (w : Hash × Nat) (hw : w ∈ s.written) (hne : ¬(key = w.1 ∧ id = m.nodeId)) :
      HasRow m (m.addProvider now fails key id pk addrs s.store.rows).1 w ∨
        pc = .read ∧ w.2 + m.providerTtl ≤ now := by
    rcases h.rows w hw with hrow | ⟨hread, hle⟩
    · exact Or.inl (hkeep w hne hrow)
    · exact Or.inr ⟨hpc hread, le_trans hle hclock⟩
  by_cases hid : id = m.nodeId
  · simp only [if_pos hid]
    constructor
    · intro w hw
      rcases mem_replace.mp hw with ⟨hw, -⟩ | rfl
      · exact h.fits w hw
      · exact hfits hid
    · intro w hw
      rcases mem_replace.mp hw with ⟨hw, hne⟩ | rfl
      · exact hold w hw fun hsame => hne hsame.1.symm
      · exact Or.inl (hnew hid (hfits hid))
  · simp only [if_neg hid]
    exact ⟨h.fits, fun w hw => hold w hw fun hsame => hid hsame.2⟩

theorem HasRow.cleanup {rows : List ProvidersRow} {w : Hash × Nat} (h : HasRow m rows w)
    (hfits : w.2 + m.providerTtl < 2 ^ 63) (now : Nat) :
    HasRow m (MetadataStore.cleanupExpiredProviders now rows).1 w ∨ w.2 + m.providerTtl ≤ now := by
  obtain ⟨row, hrow, hkey, hid, he⟩ := h
  by_cases hle : row.expiresAt ≤ toI64 now
  · right
    by_cases hnow : now < 2 ^ 63
    · rw [he, toI64_of_lt hnow] at hle
      exact_mod_cast hle
    · omega
  · exact Or.inl ⟨row, List.mem_filter.mpr ⟨hrow, decide_eq_true hle⟩, hkey, hid, he⟩

theorem HasRow.read {rows : List ProvidersRow} {w : Hash × Nat} (h : HasRow m rows w)
    (hfits : w.2 + m.providerTtl < 2 ^ 63) {now : Nat} (hnow : now < w.2 + m.providerTtl) :
    w.1 ∈ MetadataStore.getOwnProviders now m.nodeId rows := by
  obtain ⟨row, hrow, hkey, hid, he⟩ := h
  refine List.mem_filterMap.mpr ⟨row.contentKey, ?_, by rw [hkey, toArray32_bytes]⟩
  refine List.mem_dedup.mpr (List.mem_map_of_mem (List.mem_filter.mpr ⟨hrow, decide_eq_true ⟨hid, ?_⟩⟩))
  rw [he, toI64_of_lt (by omega)]
  exact_mod_cast hnow

theorem Kept.read (h : Kept m s) {now : Nat} (hclock : s.clock ≤ now)
    (hdue : ∀ w ∈ s.written, now < w.2 + m.providerTtl) {w : Hash × Nat} (hw : w ∈ s.written) :
    HasRow m s.store.rows w := by
  rcases h.rows w hw with hrow | ⟨-, hle⟩
  · exact hrow
  · have := hdue w hw
    omega

/-- One case per call. -/
theorem step_kept (s : OwnRun) (a : ProviderAction) (h : Kept m s) (hok : Timely m s a ∧ Fits m s a) :
    Kept m (step m s a) := by
  obtain ⟨⟨hclock, hsucceeds, hdue⟩, hfits⟩ := hok
  cases a with
  | addProvider now fails key id pk addrs =>
    have hsucceeds : (m.addProvider now fails key id pk addrs s.store.rows).2 = true := hsucceeds
    have hstep : step m s (.addProvider now fails key id pk addrs) =
        { store := ⟨(m.addProvider now fails key id pk addrs s.store.rows).1, s.store.pc⟩
          clock := now
          written := if id = m.nodeId then replace Prod.fst s.written (key, now) else s.written } := by
      by_cases hid : id = m.nodeId
      · simp only [step, Maintainer.apply, hsucceeds, ownKey, if_pos hid, ProviderAction.now]
      · simp only [step, Maintainer.apply, hsucceeds, ownKey, if_neg hid, ProviderAction.now]
    rw [hstep]
    refine h.addProvider s.store.pc (fun hpc => hpc) hclock hsucceeds fun hid => hfits ?_
    simp [ownKey, hid]
  | maintain now fails localAddr =>
    obtain ⟨⟨rows, pc⟩, clock, written⟩ := s
    cases pc with
    | cleanup =>
      cases fails with
      | true => cases hsucceeds
      | false =>
        refine ⟨h.fits, fun w hw => ?_⟩
        rcases h.rows w hw with hrow | ⟨hread, -⟩
        · rcases hrow.cleanup (h.fits w hw) now with hrow | hle
          · exact Or.inl hrow
          · exact Or.inr ⟨rfl, hle⟩
        · cases hread
    | read =>
      cases fails with
      | true => cases hsucceeds
      | false => exact ⟨h.fits, fun w hw => Or.inl (h.read hclock (hdue rfl) hw)⟩
    | refresh keys =>
      cases keys with
      | nil =>
        refine ⟨h.fits, fun w hw => ?_⟩
        rcases h.rows w hw with hrow | ⟨hread, -⟩
        · exact Or.inl hrow
        · cases hread
      | cons key rest =>
        have hsucceeds :
            (m.addProvider now fails key m.nodeId m.publicKey [localAddr] rows).2 = true := hsucceeds
        have hstep : step m ⟨⟨rows, .refresh (key :: rest)⟩, clock, written⟩ (.maintain now fails localAddr) =
            { store := ⟨(m.addProvider now fails key m.nodeId m.publicKey [localAddr] rows).1,
                .refresh rest⟩
              clock := now
              written := if m.nodeId = m.nodeId then replace Prod.fst written (key, now) else written } := by
          simp only [step, Maintainer.apply, Maintainer.maintain, hsucceeds, ownKey, ProviderAction.now,
            if_true]
        rw [hstep]
        exact h.addProvider (.refresh rest) (by rintro ⟨⟩) hclock hsucceeds fun _ => hfits (by simp [ownKey])

theorem start_kept (m : Maintainer) (rows : List ProvidersRow) : Kept m (start rows) :=
  ⟨by simp [start], by simp [start]⟩

end

/-! ## Every later cycle -/

theorem own_records_kept (m : Maintainer) (rows : List ProvidersRow) (as : List ProviderAction)
    (now : Nat) (localAddr : SocketAddr)
    (hmeets : Meets (step m) (fun s a => Timely m s a ∧ Fits m s a) (start rows)
      (as ++ [.maintain now false localAddr]))
    (hread : (run (step m) (start rows) as).store.pc = .read) :
    ∀ w ∈ (run (step m) (start rows) as).written,
      w.1 ∈ MetadataStore.getOwnProviders now m.nodeId (run (step m) (start rows) as).store.rows := by
  obtain ⟨hmeets, ⟨⟨hclock, -, hdue⟩, -⟩, -⟩ := (meets_append _ _ _).mp hmeets
  have hkept := run_inv step_kept (start_kept m rows) hmeets
  intro w hw
  exact (hkept.read hclock (hdue hread) hw).read (hkept.fits w hw) (hdue hread w hw)

/-- Records of two keys, and cycles a day apart. -/
def dailyCycles : List ProviderAction :=
  [.addProvider 1000 false (Bytes32.fill 1) (Bytes32.fill 7) (Bytes32.fill 8) [.v4 127 0 0 1 4433],
    .maintain 2000 false (.v4 127 0 0 1 4433), .maintain 2001 false (.v4 127 0 0 1 4433),
    .addProvider 2002 false (Bytes32.fill 2) (Bytes32.fill 7) (Bytes32.fill 8) [.v4 127 0 0 1 4433],
    .maintain 2003 false (.v4 127 0 0 1 4433), .maintain 2004 false (.v4 127 0 0 1 4433),
    .maintain 88400 false (.v4 127 0 0 1 4433)]

def twoDays : Maintainer := ⟨Persistence.localJson, .release, Bytes32.fill 7, Bytes32.fill 8, 48 * 3600⟩

theorem own_records_kept_daily :
    Bytes32.fill 1 ∈ MetadataStore.getOwnProviders 88401 twoDays.nodeId
      (run (step twoDays) (start []) dailyCycles).store.rows := by
  have hmeets : Meets (step twoDays) (fun s a => Timely twoDays s a ∧ Fits twoDays s a) (start [])
      (dailyCycles ++ [.maintain 88401 false (.v4 127 0 0 1 4433)]) := by
    decide +kernel
  exact own_records_kept twoDays [] dailyCycles 88401 _ hmeets (by decide +kernel)
    (Bytes32.fill 1, 2003) (by decide +kernel)

/-- With a `provider_ttl` of `2^63` seconds the end of a record is a negative `i64`. The cleanup of
the same second deletes it. -/
theorem own_record_lapses : ∃ (m : Maintainer) (as : List ProviderAction) (now : Nat) (localAddr : SocketAddr),
    Meets (step m) (Timely m) (start []) (as ++ [.maintain now false localAddr]) ∧
    (run (step m) (start []) as).store.pc = .read ∧
    ∃ w ∈ (run (step m) (start []) as).written,
      w.1 ∉ MetadataStore.getOwnProviders now m.nodeId (run (step m) (start []) as).store.rows := by
  refine ⟨{ twoDays with providerTtl := 2 ^ 63 }, [.addProvider 1000 false (Bytes32.fill 1)
    (Bytes32.fill 7) (Bytes32.fill 8) [.v4 127 0 0 1 4433], .maintain 1000 false (.v4 127 0 0 1 4433)],
    1000, .v4 127 0 0 1 4433, by decide +kernel, by decide +kernel, (Bytes32.fill 1, 1000),
    by decide +kernel, by decide +kernel⟩

end TesserasDht.OwnRecords
