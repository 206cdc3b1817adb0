import TesserasDht.PeerQuota

/-!
# Chunks that are sent again

A put of a chunk that is stored already succeeds, and the place that was taken for it is kept.
-/

open Lib.Lists Lib.Tasks Lib.Runs Lib.Files

namespace TesserasDht.Resend

open Admission PeerQuota

/-! ## One put -/

section

variable {sha256 : Bytes → Hash} {b : Build} {io : ChunkStore.Faults} {s : ChunkStore} {hash : Hash}
  {data : Bytes}

/-- No name goes away. -/
def Grows (s s' : ChunkStore) : Prop := ∀ h, s.exists h = true → s'.exists h = true

variable (sha256 b io s hash data) in
theorem put_cases : Grows s (s.put sha256 b io hash data).2 ∧
    ((∃ e, (s.put sha256 b io hash data).1 = .error e) ∨
      (s.put sha256 b io hash data).1 = .ok () ∧ data.length ≤ maxChunkSize ∧ sha256 data = hash ∧
        (s.put sha256 b io hash data).2.exists hash = true) := by
  have hrefl : Grows s s := fun _ h => h
  change Grows s (s.putSync sha256 b io hash data).2 ∧
    ((∃ e, ChunkStore.joined (s.putSync sha256 b io hash data).1 = .error e) ∨
      ChunkStore.joined (s.putSync sha256 b io hash data).1 = .ok () ∧ data.length ≤ maxChunkSize ∧
        sha256 data = hash ∧ (s.putSync sha256 b io hash data).2.exists hash = true)
  have hwritten (hnone : s.dir.lookup hash = none) (data' : Bytes) (h : Hash)
      (hh : s.exists h = true ∨ h = hash) : (s.written hash data data').exists h = true := by
    change (((s.dir.create hash).1.write (s.dir.create hash).2 data').lookup h).isSome = true
    by_cases hx : h = hash
    · subst hx
      rw [Dir.lookup_create_write_self hnone]
      rfl
    · rw [Dir.lookup_create_write_of_ne hnone hx]
      exact hh.resolve_right hx
  have hend := s.putSync_end sha256 b io hash data
  generalize s.putSync sha256 b io hash data = r at hend ⊢
  cases hend with
  | refused => exact ⟨hrefl, Or.inl ⟨_, rfl⟩⟩
  | stored hlen hsha hold => exact ⟨hrefl, Or.inr ⟨rfl, hlen, hsha, hold⟩⟩
  | overflow e =>
    refine ⟨hrefl, Or.inl ?_⟩
    cases e with
    | error e => exact ⟨_, rfl⟩
    | panic p => exact ⟨_, rfl⟩
  | rolledBack => exact ⟨hrefl, Or.inl ⟨_, rfl⟩⟩
  | cut e sum n _ _ hnew => exact ⟨fun h hh => hwritten hnew _ h (Or.inl hh), Or.inl ⟨_, rfl⟩⟩
  | done sum hlen hsha hnew =>
    exact ⟨fun h hh => hwritten hnew _ h (Or.inl hh), Or.inr ⟨rfl, hlen, hsha, hwritten hnew _ hash (Or.inr rfl)⟩⟩

end

/-! ## One request -/

/-- A request of the sender to store a chunk. It passed the checks of the node, and meets the given
inputs while it is handled. -/
structure PutRequest (ctx : HandlerContext) (sender : Bytes32) where
  fromAddr : SocketAddr
  msg : Message
  chunkHash : Hash
  data : Bytes
  inputs : Nat → Input
  senderId : msg.senderId = sender
  payload : msg.payload = .putChunkRequest chunkHash data
  accepted : ctx.rejection msg = none

section

variable {ctx : HandlerContext} {sender : Bytes32}

/-- The state after the handler, with nothing else in between. -/
def served (s : NodeState) (r : PutRequest ctx sender) : NodeState :=
  (exec (Op.apply ctx.build ctx.crates.sha256) r.inputs 0 (ctx.handleInboundMessage r.fromAddr r.msg)
    s).2

def answeredOk (s : NodeState) (r : PutRequest ctx sender) : Bool :=
  ((served s r).responses.drop s.responses.length).any fun p =>
    p.2.payload = .putChunkResponse true

/-- The entry of the sender. -/
def entryOf (sender : Bytes32) (s : NodeState) : Nat := ((s.peerChunkCounts sender).getD 0).toNat

/-- The chunk of the request is stored already. -/
def Stored (s : NodeState) (r : PutRequest ctx sender) : Prop :=
  s.chunks.exists r.chunkHash = true ∧ ctx.crates.sha256 r.data = r.chunkHash ∧
    r.data.length ≤ maxChunkSize

/-- What the arm of the handler does: it answers with success and keeps a place, or it does neither. -/
structure Arm (ctx : HandlerContext) (sender : Bytes32) (hash : Hash) (data : Bytes) (s s' : NodeState)
    (ok : Bool) : Prop where
  grows : Grows s.chunks s'.chunks
  responses : s'.responses = s.responses
  kept : ok = true → entryOf sender s' = entryOf sender s + 1 ∧ ctx.crates.sha256 data = hash ∧
    data.length ≤ maxChunkSize ∧ s'.chunks.exists hash = true
  same : ok = false → entryOf sender s' = entryOf sender s

variable (ctx sender) in
theorem exec_putChunk (inputs : Nat → Input) (n : Nat) (fromAddr : SocketAddr) (hash : Hash)
    (data : Bytes) (s : NodeState) : ∃ ok s',
    exec (Op.apply ctx.build ctx.crates.sha256) inputs n (ctx.putChunk fromAddr sender hash data) s =
      (.putChunkResponse ok, s') ∧ Arm ctx sender hash data s s' ok := by
  unfold HandlerContext.putChunk
  rw [perform_bind, exec]
  cases hchecked : (s.writeLimiter.check (inputs n).now fromAddr.ip).1 with
  | false =>
    simp only [Op.apply, hchecked]
    exact ⟨false, _, rfl, fun _ h => h, rfl, by rintro ⟨⟩, fun _ => rfl⟩
  | true =>
    simp only [Op.apply, hchecked, if_true]
    rw [perform_bind, exec]
    rcases reserveCount_eq sender ctx.config.maxChunksPerPeer s.peerChunkCounts with
      ⟨hr, -, hnext⟩ | ⟨hr, hnext⟩
    · -- a place is taken
      simp only [Op.apply, hr, if_true]
      rw [perform_bind, exec]
      obtain ⟨hgrows, hput⟩ := put_cases ctx.crates.sha256 ctx.build (inputs (n + 1 + 1)).faults
        s.chunks hash data
      rcases hput with ⟨e, he⟩ | ⟨hok, hlen, hsha, hexists⟩
      · simp only [Op.apply, he]
        refine ⟨false, _, rfl, hgrows, rfl, by rintro ⟨⟩, fun _ => ?_⟩
        change (((rollbackCount sender (reserveCount _ sender s.peerChunkCounts).2) sender).getD 0).toNat
          = _
        rw [rollbackCount_eq, hnext]
        rfl
      · simp only [Op.apply, hok]
        exact ⟨true, _, rfl, hgrows, rfl, fun _ => ⟨hnext, hsha, hlen, hexists⟩, by rintro ⟨⟩⟩
    · simp only [Op.apply, hr, Bool.false_eq_true, if_false]
      exact ⟨false, _, rfl, fun _ h => h, rfl, by rintro ⟨⟩, fun _ => congrArg UInt32.toNat hnext⟩

/-- What a request does. A sender that is not inserted gets no answer. -/
structure Served (s : NodeState) (r : PutRequest ctx sender) : Prop where
  grows : Grows s.chunks (served s r).chunks
  kept : answeredOk s r = true → entryOf sender (served s r) = entryOf sender s + 1 ∧
    ctx.crates.sha256 r.data = r.chunkHash ∧ r.data.length ≤ maxChunkSize ∧
    (served s r).chunks.exists r.chunkHash = true
  same : answeredOk s r = false → entryOf sender (served s r) = entryOf sender s

theorem exec_answer_put (s : NodeState) (r : PutRequest ctx sender) (n : Nat) : ∃ ok s' m,
    (exec (Op.apply ctx.build ctx.crates.sha256) r.inputs n (ctx.answer r.fromAddr r.msg) s).2 =
      { s' with responses := s'.responses ++ [(r.fromAddr, m)] } ∧
    m.payload = .putChunkResponse ok ∧ Arm ctx sender r.chunkHash r.data s s' ok := by
  obtain ⟨ok, s', hexec, harm⟩ := exec_putChunk ctx sender r.inputs n r.fromAddr
    r.chunkHash r.data s
  have hrespond : ctx.respond r.fromAddr r.msg = (do
      return some (← ctx.putChunk r.fromAddr sender r.chunkHash r.data)) := by
    unfold HandlerContext.respond
    rw [r.payload, r.senderId]
  unfold HandlerContext.answer
  rw [hrespond, exec_bind, exec_bind, hexec]
  refine ⟨ok, s', _, rfl, ?_, harm⟩
  exact (Conduct.sign_fields _ _ _).2.2.1

theorem served_spec (s : NodeState) (r : PutRequest ctx sender) : Served s r := by
  have hanswer (s₁ : NodeState) (n : Nat) (hchunks : s₁.chunks = s.chunks)
      (hcounts : s₁.peerChunkCounts = s.peerChunkCounts) (hresponses : s₁.responses = s.responses)
      (hserved : served s r =
        (exec (Op.apply ctx.build ctx.crates.sha256) r.inputs n (ctx.answer r.fromAddr r.msg) s₁).2) :
      Served s r := by
    obtain ⟨ok, s', m, hexec, hm, harm⟩ := exec_answer_put s₁ r n
    have hok : answeredOk s r = ok := by
      unfold answeredOk
      rw [hserved, hexec, harm.responses, hresponses, List.drop_left]
      simp [hm]
    have hentry : entryOf sender s₁ = entryOf sender s := by rw [entryOf, hcounts, entryOf]
    refine ⟨?_, fun h => ?_, fun h => ?_⟩
    · rw [hserved, hexec, ← hchunks]
      exact harm.grows
    · rw [hok] at h
      rw [hserved, hexec, ← hentry]
      exact harm.kept h
    · rw [hok] at h
      rw [hserved, hexec, ← hentry]
      exact harm.same h
  have hserved : served s r = (exec (Op.apply ctx.build ctx.crates.sha256) r.inputs 0
      (ctx.handleInboundMessage r.fromAddr r.msg) s).2 := rfl
  unfold HandlerContext.handleInboundMessage at hserved
  split at hserved
  next hrejected =>
    rw [r.accepted] at hrejected
    cases hrejected
  next =>
    split at hserved
    · exact hanswer s 0 rfl rfl rfl hserved
    · rw [exec_bind] at hserved
      obtain ⟨t, requests, spawned, hs, -⟩ := exec_insertSender ctx ctx.build ctx.crates.sha256 r.inputs
        r.fromAddr r.msg 0 s
      rw [hs] at hserved
      split at hserved
      · -- no answer
        have hno : answeredOk s r = false := by
          have hsame : (served s r).responses = s.responses := by
            rw [hserved]
            rfl
          rw [answeredOk, hsame, List.drop_length]
          rfl
        refine ⟨?_, fun h => ?_, fun _ => ?_⟩
        · rw [hserved]
          exact fun _ h => h
        · rw [hno] at h
          cases h
        · rw [hserved]
          rfl
      · refine hanswer _ _ ?_ ?_ ?_ hserved
        · rfl
        · rfl
        · rfl

/-! ## Many requests -/

/-- The chunk of the request is put and was not there. -/
def isNew (s : NodeState) (r : PutRequest ctx sender) : Bool :=
  !s.chunks.exists r.chunkHash && answeredOk s r

/-- The chunks that the requests add, one after the other. -/
def added : NodeState → List (PutRequest ctx sender) → List Hash
  | _, [] => []
  | s, r :: rs => (if isNew s r then [r.chunkHash] else []) ++ added (served s r) rs

/-- Sending chunks again is free: the entry of the sender goes up by the number of distinct chunks that
were added, and a request for a chunk that is stored succeeds and leaves the entry alone. -/
structure ResendFree (s : NodeState) (rs : List (PutRequest ctx sender)) : Prop where
  count : entryOf sender (run served s rs) = entryOf sender s + (added s rs).dedup.length
  stored : Meets served (fun s r => Stored s r →
    answeredOk s r = true ∧ entryOf sender (served s r) = entryOf sender s) s rs

/-- No request asks for a chunk that is stored. -/
def AsksForNew (s : NodeState) (rs : List (PutRequest ctx sender)) : Prop :=
  Meets served (fun s r => ¬Stored s r) s rs

theorem added_new {s : NodeState} {rs : List (PutRequest ctx sender)} {h : Hash}
    (hh : h ∈ added s rs) : s.chunks.exists h = false := by
  induction rs generalizing s with
  | nil => cases hh
  | cons r rs ih =>
    rcases List.mem_append.mp hh with hh | hh
    · split at hh
      next hnew =>
        obtain rfl := List.mem_singleton.mp hh
        simp only [isNew, Bool.and_eq_true, Bool.not_eq_true'] at hnew
        exact hnew.1
      next => cases hh
    · have hlater := ih hh
      cases hs : s.chunks.exists h with
      | false => rfl
      | true =>
        rw [(served_spec s r).grows h hs] at hlater
        cases hlater

theorem added_nodup (s : NodeState) (rs : List (PutRequest ctx sender)) : (added s rs).Nodup := by
  induction rs generalizing s with
  | nil => exact List.nodup_nil
  | cons r rs ih =>
    rw [added]
    split
    next hnew =>
      refine List.nodup_cons.mpr ⟨fun hmem => ?_, ih _⟩
      simp only [isNew, Bool.and_eq_true] at hnew
      have hthere := ((served_spec s r).kept hnew.2).2.2.2
      rw [added_new hmem] at hthere
      cases hthere
    next => exact ih _

theorem stored_costs {s : NodeState} {r : PutRequest ctx sender} :
    ¬(answeredOk s r = true ∧ entryOf sender (served s r) = entryOf sender s) := by
  rintro ⟨hok, hsame⟩
  have hkept := ((served_spec s r).kept hok).1
  omega

theorem new_costs {s : NodeState} {r : PutRequest ctx sender} (h : ¬Stored s r) :
    entryOf sender (served s r) = entryOf sender s + if isNew s r then 1 else 0 := by
  have hspec := served_spec s r
  cases hok : answeredOk s r with
  | false =>
    rw [hspec.same hok, isNew, hok, Bool.and_false]
    rfl
  | true =>
    obtain ⟨hentry, hsha, hlen, -⟩ := hspec.kept hok
    have hnot : s.chunks.exists r.chunkHash = false := by
      cases hs : s.chunks.exists r.chunkHash with
      | false => rfl
      | true => exact absurd ⟨hs, hsha, hlen⟩ h
    rw [hentry, isNew, hok, hnot]
    rfl

/-- Sending chunks is free of charge beyond what is added, just when no chunk is sent that is stored. -/
theorem resend_free_iff (ctx : HandlerContext) (sender : Bytes32) (s : NodeState)
    (rs : List (PutRequest ctx sender)) : ResendFree s rs ↔ AsksForNew s rs := by
  constructor
  · rintro ⟨-, hstored⟩
    exact hstored.mono fun s r h hs => stored_costs (h hs)
  · intro hasks
    refine ⟨?_, hasks.mono fun s r h hs => absurd hs h⟩
    rw [(added_nodup s rs).dedup]
    induction rs generalizing s with
    | nil => rfl
    | cons r rs ih =>
      have hrest := ih (served s r) hasks.2
      rw [run_cons, hrest, new_costs hasks.1, added, List.length_append]
      split
      · rw [List.length_singleton]
        omega
      · rw [List.length_nil]
        omega

/-! ## The same chunk twice -/

/-- The request for the chunk `[7]` at a node that stores it. -/
def putAgain : PutRequest (contextWith putCrates) putSeven.senderId where
  fromAddr := .v4 127 0 0 1 4434
  msg := putSeven
  chunkHash := Sha256.digest [7]
  data := [7]
  inputs _ := quietInput
  senderId := rfl
  payload := rfl
  accepted := by decide +kernel

/-- Both are answered with success, and the second is counted as well. -/
theorem resend_costs_quota :
    answeredOk freshState putAgain = true ∧ answeredOk (served freshState putAgain) putAgain = true ∧
      entryOf putSeven.senderId (run served freshState [putAgain, putAgain]) = 2 ∧
      added freshState [putAgain, putAgain] = [Sha256.digest [7]] ∧
      ¬ResendFree freshState [putAgain, putAgain] := by
  have hentry : entryOf putSeven.senderId (run served freshState [putAgain, putAgain]) = 2 := by
    decide +kernel
  have hadded : added freshState [putAgain, putAgain] = [Sha256.digest [7]] := by decide +kernel
  refine ⟨by decide +kernel, by decide +kernel, hentry, hadded, fun h => ?_⟩
  have hcount := h.count
  rw [hentry, hadded] at hcount
  cases hcount

end

end TesserasDht.Resend
