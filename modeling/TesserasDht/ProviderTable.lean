import TesserasDht.Persistence

/-!
# What the table of providers says

Of each key and node the last record counts. A cleanup takes out rows that no later read returns, so
it makes no difference when, and how often, it is called.
-/

open Lib.Runs Lib.Tables

namespace TesserasDht.ProviderTable

/-! ## The decoded rows -/

section

variable {json : Json} {b : Build} {now ttl : Nat}

/-- The row stands for the record. -/
structure Shows (json : Json) (row : ProvidersRow) (record : ProviderRow) : Prop where
  contentKey : row.contentKey = record.contentKey.bytes
  nodeId : row.nodeId = record.nodeId.bytes
  publicKey : row.publicKey = record.publicKey.bytes
  addresses : json.fromStr row.addresses = .ok record.addresses
  expiresAt : row.expiresAt = record.expiresAt

theorem Shows.read {row : ProvidersRow} {record : ProviderRow} (h : Shows json row record) :
    MetadataStore.readPeer json row.nodeId row.publicKey row.addresses =
      some ⟨record.nodeId.asBytes, record.publicKey, record.addresses⟩ := by
  rw [MetadataStore.readPeer, h.publicKey, toArray32_bytes, h.addresses, h.nodeId,
    show record.nodeId.bytes = record.nodeId.asBytes.bytes from rfl, toArray32_bytes]
  rfl

/-- Over the decoded rows a record is written by `TesserasDht.addProvider`. -/
theorem addProvider_refines {rows new : List ProvidersRow} {records : List ProviderRow}
    (hrows : List.Forall₂ (Shows json) rows records) {key : Hash} {nodeId publicKey : Bytes32}
    {addrs : List SocketAddr} (hkeeps : json.Keeps addrs)
    (h : MetadataStore.addProvider json b now ttl key nodeId publicKey addrs rows = .ok new) :
    ∃ records', TesserasDht.addProvider b now ttl key (NodeId.fromBytes nodeId) publicKey addrs records =
      .ok records' ∧ List.Forall₂ (Shows json) new records' := by
  obtain ⟨text, htext, hread⟩ := Json.serialize_of_keeps hkeeps
  obtain ⟨_, htext', h⟩ := bind_ok h
  cases htext.symm.trans htext'
  obtain ⟨e, he, h⟩ := bind_ok h
  cases h
  rw [TesserasDht.addProvider, he]
  refine ⟨_, rfl, ?_⟩
  refine List.rel_append (List.rel_filter ?_ hrows) (.cons ⟨rfl, rfl, rfl, hread, rfl⟩ .nil)
  intro row record hshows
  simp only [decide_eq_true_iff, ProvidersRow.key, hshows.contentKey, hshows.nodeId, ne_eq,
    Prod.mk.injEq]
  refine not_congr (and_congr ⟨bytes_inj, congrArg _⟩ ?_)
  exact ⟨fun he => NodeId.ext he, fun he => congrArg NodeId.bytes he⟩

theorem getProviders_refines {rows : List ProvidersRow} {records : List ProviderRow}
    (hrows : List.Forall₂ (Shows json) rows records) (key : Hash) :
    MetadataStore.getProviders json now key rows = TesserasDht.getProviders now key records := by
  unfold MetadataStore.getProviders TesserasDht.getProviders
  induction hrows with
  | nil => rfl
  | @cons row record rows records hshows _ ih =>
    have hkey : row.contentKey = key.bytes ↔ record.contentKey = key := by
      rw [hshows.contentKey]
      exact ⟨bytes_inj, congrArg _⟩
    simp only [List.filter_cons, hkey, hshows.expiresAt]
    split
    · rw [List.filterMap_cons, hshows.read, List.map_cons, ih]
    · exact ih

end

/-! ## Calls -/

inductive Call
  | addProvider (now ttl : Nat) (contentKey : Hash) (nodeId publicKey : Bytes32)
      (addresses : List SocketAddr)
  | cleanupExpiredProviders (now : Nat)
  | getProviders (now : Nat) (contentKey : Hash)

namespace Call

/-- The clock reading of a call. -/
def now : Call → Nat
  | .addProvider now _ _ _ _ _ | .cleanupExpiredProviders now | .getProviders now _ => now

def isCleanup : Call → Bool
  | .cleanupExpiredProviders _ => true
  | _ => false

/-- The end of the record fits in an `i64`, and its addresses survive their JSON encoding. -/
def Fits (json : Json) : Call → Prop
  | .addProvider now ttl _ _ _ addresses => now + ttl < 2 ^ 63 ∧ json.Keeps addresses
  | _ => True

end Call

/-- A call that fails leaves the table alone. -/
def step (json : Json) (b : Build) (rows : List ProvidersRow) : Call → List ProvidersRow
  | .addProvider now ttl contentKey nodeId publicKey addresses =>
    match MetadataStore.addProvider json b now ttl contentKey nodeId publicKey addresses rows with
    | .ok rows => rows
    | .error _ => rows
  | .cleanupExpiredProviders now => (MetadataStore.cleanupExpiredProviders now rows).1
  | .getProviders _ _ => rows

/-- What a call of `add_provider` says of its node. -/
structure Record where
  now : Nat
  ttl : Nat
  publicKey : Bytes32
  addresses : List SocketAddr

def recordOf (contentKey : Hash) (nodeId : Bytes32) : Call → Option Record
  | .addProvider now ttl key id publicKey addresses =>
    if key = contentKey ∧ id = nodeId then some ⟨now, ttl, publicKey, addresses⟩ else none
  | _ => none

/-- The most recent record of the node for the key. -/
def lastRecord (calls : List Call) (contentKey : Hash) (nodeId : Bytes32) : Option Record :=
  (calls.filterMap (recordOf contentKey nodeId)).getLast?

theorem lastRecord_concat (calls : List Call) (c : Call) (contentKey : Hash) (nodeId : Bytes32) :
    lastRecord (calls ++ [c]) contentKey nodeId =
      (recordOf contentKey nodeId c).or (lastRecord calls contentKey nodeId) := by
  rw [lastRecord, List.filterMap_append, List.getLast?_append]
  cases h : recordOf contentKey nodeId c with
  | none => simp [h, lastRecord]
  | some a => simp [h, lastRecord]

theorem mem_of_lastRecord {calls : List Call} {contentKey : Hash} {nodeId : Bytes32} {a : Record}
    (h : lastRecord calls contentKey nodeId = some a) :
    .addProvider a.now a.ttl contentKey nodeId a.publicKey a.addresses ∈ calls := by
  obtain ⟨c, hc, hrec⟩ := List.mem_filterMap.mp (List.mem_of_getLast? h)
  unfold recordOf at hrec
  split at hrec
  next now ttl key id pk addrs =>
    split at hrec
    next he =>
      obtain ⟨rfl, rfl⟩ := he
      cases hrec
      exact hc
    next => cases hrec
  next => cases hrec

/-! ## Rows that a read still returns -/

/-- The row is not expired at the time `t`. -/
def live (t : Nat) (row : ProvidersRow) : Bool := toI64 t < row.expiresAt

section

variable {json : Json} {b : Build} {t : Nat}

theorem toI64_of_lt {n : Nat} (h : n < 2 ^ 63) : toI64 n = n := if_pos h

theorem step_add {now ttl : Nat} {key : Hash} {id pk : Bytes32} {addrs : List SocketAddr}
    (h : (Call.addProvider now ttl key id pk addrs).Fits json) (rows : List ProvidersRow) :
    ∃ text, json.toString addrs = .ok text ∧ json.fromStr text = .ok addrs ∧
      step json b rows (.addProvider now ttl key id pk addrs) =
        replace ProvidersRow.key rows ⟨key.bytes, id.bytes, pk.bytes, text, (now + ttl : Nat)⟩ := by
  obtain ⟨hfits, text, hto, hfrom⟩ := h
  have hadd : b.add now ttl = .ok (now + ttl) :=
    b.add_of_lt (lt_trans hfits (by rw [wordSize]; exact Nat.pow_lt_pow_right (by decide) (by decide)))
  refine ⟨text, hto, hfrom, ?_⟩
  simp only [step, MetadataStore.addProvider, Json.serialize, hto, hadd, bind, Except.bind, pure,
    Except.pure, toI64_of_lt hfits]

theorem filter_cleanup {now : Nat} (hnow : now ≤ t) (ht : t < 2 ^ 63) (rows : List ProvidersRow) :
    ((MetadataStore.cleanupExpiredProviders now rows).1).filter (live t) = rows.filter (live t) := by
  rw [MetadataStore.cleanupExpiredProviders, List.filter_filter]
  refine List.filter_congr ?_
  intro row _
  rw [Bool.and_eq_left_iff_imp]
  intro hlive
  have := of_decide_eq_true hlive
  rw [toI64_of_lt ht] at this
  rw [decide_eq_true_iff, toI64_of_lt (lt_of_le_of_lt hnow ht)]
  omega

/-- By induction on the calls: the live rows are the same when no cleanup is called. -/
theorem filter_run (ht : t < 2 ^ 63) (calls : List Call) (hlast : ∀ c ∈ calls, c.now ≤ t)
    (hfits : ∀ c ∈ calls, c.Fits json) {rows rows' : List ProvidersRow}
    (h : rows.filter (live t) = rows'.filter (live t)) :
    (run (step json b) rows calls).filter (live t) =
      (run (step json b) rows' (calls.filter fun c => !c.isCleanup)).filter (live t) := by
  induction calls generalizing rows rows' with
  | nil => exact h
  | cons c rest ih =>
    obtain ⟨hc, hrest⟩ := List.forall_mem_cons.mp hlast
    obtain ⟨hcfits, hrestfits⟩ := List.forall_mem_cons.mp hfits
    cases c with
    | addProvider now ttl key id pk addrs =>
      rw [List.filter_cons_of_pos rfl, run_cons, run_cons]
      refine ih hrest hrestfits ?_
      obtain ⟨text, hto, -, hstep⟩ := step_add (b := b) hcfits rows
      obtain ⟨text', hto', -, hstep'⟩ := step_add (b := b) hcfits rows'
      cases hto.symm.trans hto'
      rw [hstep, hstep']
      exact filter_replace h _
    | cleanupExpiredProviders now =>
      rw [List.filter_cons_of_neg (by simp [Call.isCleanup]), run_cons]
      exact ih hrest hrestfits ((filter_cleanup hc ht rows).trans h)
    | getProviders now key =>
      rw [List.filter_cons_of_pos rfl, run_cons, run_cons]
      exact ih hrest hrestfits h

/-! ## The last record counts -/

/-- The row says what the record says. -/
structure Holds (json : Json) (key : Hash) (id : Bytes32) (a : Record) (row : ProvidersRow) : Prop where
  contentKey : row.contentKey = key.bytes
  nodeId : row.nodeId = id.bytes
  publicKey : row.publicKey = a.publicKey.bytes
  addresses : json.toString a.addresses = .ok row.addresses
  expiresAt : row.expiresAt = (a.now + a.ttl : Nat)

/-- The table after some calls, as far as it is live at `t`. -/
structure Tells (json : Json) (t : Nat) (calls : List Call) (rows : List ProvidersRow) : Prop where
  keyed : (rows.map ProvidersRow.key).Nodup
  sound : ∀ row ∈ rows, ∃ key id a, lastRecord calls key id = some a ∧ Holds json key id a row
  complete : ∀ key id a, lastRecord calls key id = some a → t < a.now + a.ttl →
    ∃ row ∈ rows, Holds json key id a row

theorem Tells.add {calls : List Call} {rows : List ProvidersRow} (h : Tells json t calls rows)
    {now ttl : Nat} {key : Hash} {id pk : Bytes32} {addrs : List SocketAddr}
    (hfits : (Call.addProvider now ttl key id pk addrs).Fits json) :
    Tells json t (calls ++ [.addProvider now ttl key id pk addrs])
      (step json b rows (.addProvider now ttl key id pk addrs)) := by
  obtain ⟨text, hto, -, hstep⟩ := step_add (b := b) hfits rows
  have hnew : Holds json key id ⟨now, ttl, pk, addrs⟩ ⟨key.bytes, id.bytes, pk.bytes, text, (now + ttl : Nat)⟩ :=
    ⟨rfl, rfl, rfl, hto, rfl⟩
  rw [hstep]
  refine ⟨nodup_replace h.keyed _, ?_, ?_⟩
  · intro row hrow
    rcases mem_replace.mp hrow with ⟨hrow, hne⟩ | rfl
    · obtain ⟨key', id', a, ha, hholds⟩ := h.sound row hrow
      refine ⟨key', id', a, ?_, hholds⟩
      have hother : ¬(key = key' ∧ id = id') := by
        rintro ⟨rfl, rfl⟩
        exact hne (Prod.ext hholds.contentKey hholds.nodeId)
      rw [lastRecord_concat, recordOf, if_neg hother]
      exact ha
    · refine ⟨key, id, _, ?_, hnew⟩
      rw [lastRecord_concat, recordOf, if_pos ⟨rfl, rfl⟩]
      rfl
  · intro key' id' a ha hlt
    rw [lastRecord_concat, recordOf] at ha
    split at ha
    next he =>
      obtain ⟨rfl, rfl⟩ := he
      cases ha
      exact ⟨_, mem_replace.mpr (Or.inr rfl), hnew⟩
    next hother =>
      obtain ⟨row, hrow, hholds⟩ := h.complete key' id' a ha hlt
      refine ⟨row, mem_replace.mpr (Or.inl ⟨hrow, fun he => hother ?_⟩), hholds⟩
      have hkeys := Prod.mk.inj he
      rw [hholds.contentKey, hholds.nodeId] at hkeys
      exact ⟨(bytes_inj hkeys.1).symm, (bytes_inj hkeys.2).symm⟩

theorem Tells.cleanup {calls : List Call} {rows : List ProvidersRow} (h : Tells json t calls rows)
    {now : Nat} (hnow : now ≤ t) (ht : t < 2 ^ 63) :
    Tells json t (calls ++ [.cleanupExpiredProviders now])
      (step json b rows (.cleanupExpiredProviders now)) := by
  have hlast (key : Hash) (id : Bytes32) :
      lastRecord (calls ++ [.cleanupExpiredProviders now]) key id = lastRecord calls key id :=
    lastRecord_concat ..
  refine ⟨h.keyed.sublist (List.filter_sublist.map _), ?_, ?_⟩
  · intro row hrow
    obtain ⟨key, id, a, ha, hholds⟩ := h.sound row (List.mem_of_mem_filter hrow)
    exact ⟨key, id, a, (hlast key id).trans ha, hholds⟩
  · intro key id a ha hlt
    obtain ⟨row, hrow, hholds⟩ := h.complete key id a ((hlast key id).symm.trans ha) hlt
    refine ⟨row, List.mem_filter.mpr ⟨hrow, decide_eq_true ?_⟩, hholds⟩
    rw [hholds.expiresAt, toI64_of_lt (lt_of_le_of_lt hnow ht)]
    omega

/-- By induction on the calls, the last one first. -/
theorem run_tells (ht : t < 2 ^ 63) (calls : List Call) (hlast : ∀ c ∈ calls, c.now ≤ t)
    (hfits : ∀ c ∈ calls, c.Fits json) : Tells json t calls (run (step json b) [] calls) := by
  induction calls using List.reverseRecOn with
  | nil =>
    refine ⟨List.nodup_nil, by simp, ?_⟩
    rintro key id a ⟨⟩
  | append_singleton calls c ih =>
    have h := ih (fun c hc => hlast c (List.mem_append_left _ hc))
      (fun c hc => hfits c (List.mem_append_left _ hc))
    have hc : c ∈ calls ++ [c] := List.mem_append_right _ (List.mem_singleton_self c)
    rw [run_append, run_cons, run_nil]
    cases c with
    | addProvider now ttl key id pk addrs => exact h.add (hfits _ hc)
    | cleanupExpiredProviders now => exact h.cleanup (hlast _ hc) ht
    | getProviders now key =>
      have hsame (key' : Hash) (id : Bytes32) :
          lastRecord (calls ++ [.getProviders now key]) key' id = lastRecord calls key' id :=
        lastRecord_concat ..
      refine ⟨h.keyed, ?_, ?_⟩
      · intro row hrow
        obtain ⟨key', id, a, ha, hholds⟩ := h.sound row hrow
        exact ⟨key', id, a, (hsame key' id).trans ha, hholds⟩
      · intro key' id a ha hlt
        exact h.complete key' id a ((hsame key' id).symm.trans ha) hlt

/-! ## Reads -/

theorem getProviders_eq (t : Nat) (key : Hash) (rows : List ProvidersRow) :
    MetadataStore.getProviders json t key rows =
      ((rows.filter (live t)).filter fun r => r.contentKey = key.bytes).filterMap fun r =>
        MetadataStore.readPeer json r.nodeId r.publicKey r.addresses := by
  rw [MetadataStore.getProviders, List.filter_filter]
  congr 1
  refine List.filter_congr ?_
  intro row _
  exact Bool.decide_and ..

theorem getOwnProviders_eq (t : Nat) (id : Bytes32) (rows : List ProvidersRow) :
    MetadataStore.getOwnProviders t id rows =
      (((rows.filter (live t)).filter fun r => r.nodeId = id.bytes).map
        ProvidersRow.contentKey).dedup.filterMap toArray32 := by
  rw [MetadataStore.getOwnProviders, List.filter_filter]
  congr 3
  refine List.filter_congr ?_
  intro row _
  exact Bool.decide_and ..

theorem Holds.read {key : Hash} {id : Bytes32} {a : Record} {row : ProvidersRow}
    (h : Holds json key id a row) (hkeeps : json.Keeps a.addresses) :
    MetadataStore.readPeer json row.nodeId row.publicKey row.addresses =
      some ⟨id, a.publicKey, a.addresses⟩ := by
  obtain ⟨text, hto, hfrom⟩ := hkeeps
  cases hto.symm.trans h.addresses
  rw [MetadataStore.readPeer, h.nodeId, h.publicKey, toArray32_bytes, toArray32_bytes, hfrom]
  rfl

/-- One answer for each row: the ids of the answers are distinct as the keys of the rows are. -/
theorem Tells.nodup_getProviders {calls : List Call} {rows : List ProvidersRow}
    (h : Tells json t calls rows) (key : Hash) :
    ((MetadataStore.getProviders json t key rows).map NodeInfoSerde.nodeId).Nodup := by
  have hpairs : (rows.filter fun r => r.contentKey = key.bytes ∧ toI64 t < r.expiresAt).Pairwise
      fun r s => r.nodeId ≠ s.nodeId := by
    refine List.Pairwise.imp_of_mem ?_ ((List.pairwise_map.mp h.keyed).filter _)
    intro r s hr hs hne he
    have hr := (of_decide_eq_true (List.mem_filter.mp hr).2).1
    have hs := (of_decide_eq_true (List.mem_filter.mp hs).2).1
    exact hne (Prod.ext (hr.trans hs.symm) he)
  refine List.pairwise_map.mpr (hpairs.filterMap _ ?_)
  intro r s hne p hp q hq he
  exact hne ((readPeer_nodeId hp).symm.trans ((congrArg Bytes32.bytes he).trans (readPeer_nodeId hq)))

theorem getProviders_iff (json : Json) (b : Build) (calls : List Call) (t : Nat) (ht : t < 2 ^ 63)
    (hlast : ∀ c ∈ calls, c.now ≤ t) (hfits : ∀ c ∈ calls, c.Fits json) (key : Hash) :
    ((MetadataStore.getProviders json t key (run (step json b) [] calls)).map
      NodeInfoSerde.nodeId).Nodup ∧
    (∀ p, p ∈ MetadataStore.getProviders json t key (run (step json b) [] calls) ↔
      ∃ a, lastRecord calls key p.nodeId = some a ∧ t < a.now + a.ttl ∧
        p.publicKey = a.publicKey ∧ p.addresses = a.addresses) ∧
    MetadataStore.getProviders json t key (run (step json b) [] calls) =
      MetadataStore.getProviders json t key
        (run (step json b) [] (calls.filter fun c => !c.isCleanup)) ∧
    ∀ id, MetadataStore.getOwnProviders t id (run (step json b) [] calls) =
      MetadataStore.getOwnProviders t id
        (run (step json b) [] (calls.filter fun c => !c.isCleanup)) := by
  have htells := run_tells (b := b) ht calls hlast hfits
  have hlive := filter_run (b := b) ht calls hlast hfits (rfl : ([] : List ProvidersRow).filter (live t) = _)
  have hkeeps {id : Bytes32} {a : Record} (h : lastRecord calls key id = some a) : json.Keeps a.addresses :=
    (hfits _ (mem_of_lastRecord h)).2
  refine ⟨htells.nodup_getProviders key, ?_, ?_, ?_⟩
  · intro p
    constructor
    · intro hp
      obtain ⟨row, hrow, hread⟩ := List.mem_filterMap.mp hp
      obtain ⟨hrow, hcond⟩ := List.mem_filter.mp hrow
      obtain ⟨hkey, hlt⟩ := of_decide_eq_true hcond
      obtain ⟨key', id, a, ha, hholds⟩ := htells.sound row hrow
      obtain rfl : key' = key := bytes_inj (hholds.contentKey.symm.trans hkey)
      cases (hholds.read (hkeeps ha)).symm.trans hread
      rw [hholds.expiresAt, toI64_of_lt ht] at hlt
      exact ⟨a, ha, by exact_mod_cast hlt, rfl, rfl⟩
    · rintro ⟨a, ha, hlt, hpk, haddr⟩
      obtain ⟨row, hrow, hholds⟩ := htells.complete key p.nodeId a ha hlt
      refine List.mem_filterMap.mpr ⟨row, List.mem_filter.mpr ⟨hrow, decide_eq_true ?_⟩, ?_⟩
      · refine ⟨hholds.contentKey, ?_⟩
        rw [hholds.expiresAt, toI64_of_lt ht]
        exact_mod_cast hlt
      · rw [hholds.read (hkeeps ha), ← hpk, ← haddr]
  · rw [getProviders_eq, getProviders_eq, hlive]
  · intro id
    rw [getOwnProviders_eq, getOwnProviders_eq, hlive]

end

/-- A record, and a later one of the same node that ends sooner. A cleanup comes between. -/
def shortenedCalls : List Call :=
  [.addProvider 100 60 (Bytes32.fill 1) (Bytes32.fill 7) (Bytes32.fill 8) [.v4 127 0 0 1 4433],
    .cleanupExpiredProviders 101, .getProviders 101 (Bytes32.fill 1),
    .addProvider 102 5 (Bytes32.fill 1) (Bytes32.fill 7) (Bytes32.fill 9) [.v4 127 0 0 1 4433],
    .cleanupExpiredProviders 106]

/-- One second before the end of the later record. -/
theorem getProviders_iff_shortened :
    ⟨Bytes32.fill 7, Bytes32.fill 9, [.v4 127 0 0 1 4433]⟩ ∈
      MetadataStore.getProviders Persistence.localJson 106 (Bytes32.fill 1)
        (run (step Persistence.localJson .debug) [] shortenedCalls) := by
  have hlast : ∀ c ∈ shortenedCalls, c.now ≤ 106 := by decide
  have hfits : ∀ c ∈ shortenedCalls, c.Fits Persistence.localJson := by
    simp only [shortenedCalls, List.forall_mem_cons, List.not_mem_nil, Call.Fits]
    refine ⟨⟨by norm_num, _, rfl, rfl⟩, trivial, trivial, ⟨by norm_num, _, rfl, rfl⟩, trivial, ?_⟩
    exact fun _ h => h.elim
  refine ((getProviders_iff Persistence.localJson .debug shortenedCalls 106 (by norm_num) hlast hfits
    (Bytes32.fill 1)).2.1 _).mpr ⟨⟨102, 5, Bytes32.fill 9, [.v4 127 0 0 1 4433]⟩, ?_, by decide, rfl, rfl⟩
  rfl

end TesserasDht.ProviderTable
