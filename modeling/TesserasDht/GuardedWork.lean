import TesserasDht.PeerQuota
import TesserasDht.RateLimit
import TesserasDht.Watched

/-!
# Work behind a rate limiter

A handler puts a chunk or forwards a message only after a check of the address that asked. So the work
that a node does for an address is limited from the start of the run on, in every interleaving.
-/

open Lib.Lists Lib.Tasks Lib.Runs Lib.TokenBucket

namespace TesserasDht.GuardedWork

open Admission Conduct Peers Relay RateLimit Routines Watched

/-- What a rate limiter of the node guards. -/
inductive Guard
  | write
  | relay
deriving DecidableEq

namespace Guard

def limiter : Guard → NodeState → RateLimiter
  | .write, s => s.writeLimiter
  | .relay, s => s.relayLimiter

/-- The address that the operation checks. -/
def checks : Guard → Op → Option IpAddr
  | .write, .checkWrite ip => some ip
  | .relay, .checkRelay ip => some ip
  | _, _ => none

/-- The operation is what the limiter is for. -/
def works : Guard → Op → Bool
  | .write, .putChunk _ _ => true
  | .relay, .send out => out.origin = .forwarded
  | _, _ => false

end Guard

/-- The address that sent the message of the task. -/
def remote {ν : Type} : Job ν → Option IpAddr
  | .handle fromAddr _ _ => some fromAddr.ip
  | _ => none

/-! ## The contract of a task -/

/-- A check grants one piece of work. -/
def granting {ν : Type} (guard : Guard) (job : Job ν) : Extra Bool where
  owes granted e := (∀ ip ∈ guard.checks e, remote job = some ip) ∧
    (guard.works e = true → granted = true) ∧ ∀ maxIdle, e = .cleanupLimiters maxIdle → maxIdle = 300 * 10 ^ 9
  gets _ _ := True
  next granted e := match guard, e with
    | .write, .checkWrite _ => fun (r : Bool) => r
    | .relay, .checkRelay _ => fun (r : Bool) => r
    | .write, .putChunk _ _ => fun _ => false
    | .relay, .send out => fun _ => if out.origin = .forwarded then false else granted
    | _, _ => fun _ => granted

/-- The operation is no check, and no work whatever it sends. -/
def Idle (guard : Guard) (e : Op) : Prop :=
  guard.checks e = none ∧ (OwnSend e → guard.works e = false) ∧
    ∀ maxIdle, e = .cleanupLimiters maxIdle → maxIdle = 300 * 10 ^ 9

section

variable {ν : Type} (ctx : HandlerContext) {job : Job ν} {guard : Guard}

theorem idle_serves (guard : Guard) : Serves ctx (Idle guard) := by
  constructor
  · constructor
    · constructor
      all_goals
        intros
        cases guard <;> exact ⟨rfl, by simp +contextual [OwnSend, Guard.works], by rintro _ ⟨⟩⟩
    all_goals
      intros
      cases guard <;> exact ⟨rfl, fun _ => rfl, by rintro _ ⟨⟩⟩
  case cleanupLimiters => cases guard <;> exact ⟨rfl, fun _ => rfl, by rintro _ ⟨⟩; rfl⟩
  all_goals
    intros
    cases guard <;> exact ⟨rfl, fun _ => rfl, by rintro _ ⟨⟩⟩

theorem owes_idle {e : Op} (he : Idle guard e) (hown : OwnSend e) (granted : Bool) :
    (granting guard job).owes granted e := by
  obtain ⟨hcheck, hwork, hcleanup⟩ := he
  refine ⟨?_, ?_, hcleanup⟩
  · rw [hcheck]
    rintro _ ⟨⟩
  · rw [hwork hown]
    rintro ⟨⟩

theorem next_idle {e : Op} (he : Idle guard e) (hown : OwnSend e) (granted : Bool) (r : e.Result) :
    (granting guard job).next granted e r = granted := by
  obtain ⟨hcheck, hwork, -⟩ := he
  have hno := hwork hown
  cases guard with
  | write =>
    cases e with
    | checkWrite ip => cases hcheck
    | putChunk hash data => cases hno
    | _ => rfl
  | relay =>
    cases e with
    | checkRelay ip => cases hcheck
    | send out =>
      have hout : out.origin = .own := hown
      dsimp only [granting]
      rw [hout]
      rfl
    | _ => rfl

theorem quiet_keeps {α : Type} {t : NodeTask α} {g : Requests} {granted : Bool} {Q : Requests → α → Prop}
    (hown : Does ownOnly g t Q) (hidle : Performs (Idle guard) t) :
    Keeps (granting guard job).contract (fun p _ => p.2 = granted) (g, granted) t :=
  keeps_of_own hown hidle (fun _ he howns => owes_idle he howns granted)
    fun _ r he howns => next_idle he howns granted r

section

variable (fromAddr : SocketAddr) (msg : Message) (via : Option (Sent ν)) (g : Requests)

/-- The quota and the store come after the check. -/
theorem putChunk_keeps (sender : Bytes32) (hash : Hash) (data : Bytes) :
    Keeps (granting guard (.handle fromAddr msg via)).contract (fun _ _ => True) (g, false)
      (ctx.putChunk fromAddr sender hash data) := by
  have hcheck : (granting guard (.handle fromAddr msg via)).owes false (.checkWrite fromAddr.ip) := by
    refine ⟨?_, ?_, by rintro _ ⟨⟩⟩
    · cases guard with
      | write => rintro _ ⟨⟩; rfl
      | relay => rintro _ ⟨⟩
    · cases guard <;> rintro ⟨⟩
  have hidle (granted : Bool) {e : Op} (he : Idle guard e) (hown : OwnSend e) :
      (granting guard (.handle fromAddr msg via)).owes granted e := owes_idle he hown granted
  refine Keeps.perform hcheck fun checked _ => ?_
  cases checked with
  | false => exact trivial
  | true =>
    refine Keeps.perform (hidle _ (by cases guard <;> exact ⟨rfl, fun _ => rfl, by rintro _ ⟨⟩⟩) trivial)
      fun reserved _ => ?_
    cases reserved with
    | false => exact trivial
    | true =>
      refine Keeps.perform ?_ fun r _ => ?_
      · refine ⟨?_, ?_, by rintro _ ⟨⟩⟩
        · cases guard <;> rintro _ ⟨⟩
        · cases guard with
          | write => exact fun _ => rfl
          | relay => rintro ⟨⟩
      · cases r with
        | ok u => exact trivial
        | error e =>
          exact ⟨hidle _ (by cases guard <;> exact ⟨rfl, fun _ => rfl, by rintro _ ⟨⟩⟩) trivial,
            fun _ _ => trivial⟩

theorem forward_keeps (targetId : Bytes32) (inner : Message) :
    Keeps (granting guard (.handle fromAddr msg via)).contract (fun _ _ => True) (g, guard = .relay)
      (ctx.forward targetId inner) := by
  have hserves := idle_serves ctx guard
  have hsend (addrs : List SocketAddr) (g : Requests) :
      Keeps (granting guard (.handle fromAddr msg via)).contract (fun _ _ => True) (g, guard = .relay)
        (sendRequestAny .forwarded addrs inner) := by
    unfold sendRequestAny
    split
    · exact trivial
    · refine ⟨⟨?_, ?_, by rintro _ ⟨⟩⟩, fun request _ =>
        ⟨owes_idle (hserves.await _) trivial _, fun answer _ => trivial⟩⟩
      · cases guard <;> rintro _ ⟨⟩
      · cases guard with
        | write => rintro ⟨⟩
        | relay => exact fun _ => rfl
  unfold HandlerContext.forward
  refine Keeps.perform (owes_idle (hserves.closestNodes _ _) trivial _) fun found _ => ?_
  have hnext : (granting guard (.handle fromAddr msg via)).contract.next (g, decide (guard = .relay))
      (.closestNodes (NodeId.fromBytes targetId) 1) found = (g, decide (guard = .relay)) := by
    cases guard <;> rfl
  rw [hnext]
  split
  · exact trivial
  · apply (hsend _ g).bind
    intro g' r _
    cases r with
    | none => exact trivial
    | some resp =>
      dsimp only
      split
      · exact trivial
      · exact trivial

/-- At most one message is forwarded, after the check. -/
theorem relay_keeps (targetId : Bytes32) (payload : Bytes) (hops : UInt8) :
    Keeps (granting guard (.handle fromAddr msg via)).contract (fun _ _ => True) (g, false)
      (ctx.relay fromAddr targetId payload hops) := by
  have hcheck : (granting guard (.handle fromAddr msg via)).owes false (.checkRelay fromAddr.ip) := by
    refine ⟨?_, ?_, by rintro _ ⟨⟩⟩
    · cases guard with
      | write => rintro _ ⟨⟩
      | relay => rintro _ ⟨⟩; rfl
    · cases guard <;> rintro ⟨⟩
  unfold HandlerContext.relay
  split_ifs
  · exact trivial
  · exact trivial
  · refine Keeps.perform hcheck fun (checked : Bool) _ => ?_
    cases checked with
    | false => exact trivial
    | true =>
      have hnext : (granting guard (.handle fromAddr msg via)).contract.next (g, false)
          (.checkRelay fromAddr.ip) true = (g, decide (guard = .relay)) := by
        cases guard <;> rfl
      rw [if_pos rfl, hnext]
      split
      · exact trivial
      · split_ifs
        · exact trivial
        · exact trivial
        · exact forward_keeps ctx fromAddr msg via g targetId _

theorem respond_keeps :
    Keeps (granting guard (.handle fromAddr msg via)).contract (fun _ _ => True) (g, false)
      (ctx.respond fromAddr msg) ∨
    (∀ hash data, msg.payload ≠ .putChunkRequest hash data) ∧
      ∀ targetId payload hops, msg.payload ≠ .relayRequest targetId payload hops := by
  by_cases hput : ∃ hash data, msg.payload = .putChunkRequest hash data
  · obtain ⟨hash, data, hmsg⟩ := hput
    left
    unfold HandlerContext.respond
    rw [hmsg]
    exact (putChunk_keeps ctx fromAddr msg via g _ hash data).bind fun _ _ _ => trivial
  · by_cases hrelay : ∃ targetId payload hops, msg.payload = .relayRequest targetId payload hops
    · obtain ⟨targetId, payload, hops, hmsg⟩ := hrelay
      left
      unfold HandlerContext.respond
      rw [hmsg]
      exact (relay_keeps ctx fromAddr msg via g targetId payload hops).bind fun _ _ _ => trivial
    · exact Or.inr ⟨fun hash data h => hput ⟨hash, data, h⟩,
        fun targetId payload hops h => hrelay ⟨targetId, payload, hops, h⟩⟩

theorem answer_keeps
    (hrespond : Keeps (granting guard (.handle fromAddr msg via)).contract (fun _ _ => True) (g, false)
      (ctx.respond fromAddr msg)) :
    Keeps (granting guard (.handle fromAddr msg via)).contract (fun _ _ => True) (g, false)
      (ctx.answer fromAddr msg) := by
  apply hrespond.bind
  rintro ⟨g', granted⟩ r _
  cases r with
  | none => exact trivial
  | some payload =>
    exact ⟨owes_idle ((idle_serves ctx guard).sendResponse _ _) trivial _, fun _ _ => trivial⟩

theorem handle_keeps :
    Keeps (granting guard (.handle fromAddr msg via)).contract (fun _ _ => True) (g, false)
      (ctx.handleInboundMessage fromAddr msg) := by
  rcases em ((∀ hash data, msg.payload ≠ .putChunkRequest hash data) ∧
      ∀ targetId payload hops, msg.payload ≠ .relayRequest targetId payload hops) with
    ⟨hput, hrelay⟩ | hwork
  · have hserves := idle_serves ctx guard
    have hidle := handle_performs ctx hserves (Watched.respond_performs ctx hserves fromAddr hput hrelay)
    exact (quiet_keeps (handle_does ctx hrelay fromAddr g) hidle).mono fun _ _ _ => trivial
  · have hanswer (g : Requests) : Keeps (granting guard (.handle fromAddr msg via)).contract (fun _ _ => True)
        (g, false) (ctx.answer fromAddr msg) :=
      answer_keeps ctx fromAddr msg via g ((respond_keeps ctx fromAddr msg via g).resolve_right hwork)
    unfold HandlerContext.handleInboundMessage
    split
    · exact trivial
    · split
      · exact hanswer g
      · have hsender := insertSender_performs ctx (idle_serves ctx guard).admits fromAddr msg
        apply (quiet_keeps (insertSender_own ctx fromAddr msg g) hsender).bind
        rintro ⟨g', granted⟩ r rfl
        cases r with
        | error e => exact trivial
        | ok u => exact hanswer g'

end

theorem task_keeps (guard : Guard) (job : Job ν) :
    Keeps (granting guard job).contract (fun _ _ => True) (fun _ => none, false) (Network.task ctx job) := by
  by_cases hjob : ∃ fromAddr msg via, job = .handle fromAddr msg via
  · obtain ⟨fromAddr, msg, via, rfl⟩ := hjob
    exact handle_keeps ctx fromAddr msg via _
  · have hother : ∀ fromAddr msg via, job ≠ .handle fromAddr msg via :=
      fun fromAddr msg via h => hjob ⟨fromAddr, msg, via, h⟩
    exact (quiet_keeps (job_does ctx hother _) (job_performs ctx (idle_serves ctx guard) hother)).mono
      fun _ _ _ => trivial

end

/-! ## The limiter of a node -/

section

variable {guard : Guard} {ν : Type} {job : Job ν} (b : Build) (sha256 : Bytes → Hash) (input : Input)
  (s : NodeState)

/-- A check of the address, whose answer is what is granted from then on. -/
def Checked (guard : Guard) (input : Input) (s s' : NodeState) (ip : IpAddr) (works granted : Bool) : Prop :=
  works = false ∧ guard.limiter s' = ((guard.limiter s).check input.now ip).2 ∧
    granted = ((guard.limiter s).check input.now ip).1

/-- No check: work uses up the grant, and buckets may be forgotten. -/
def Unchecked (guard : Guard) (input : Input) (s s' : NodeState) (works granted granted' : Bool) : Prop :=
  (guard.limiter s' = guard.limiter s ∨
      guard.limiter s' = (guard.limiter s).cleanup input.now (300 * 10 ^ 9)) ∧
    (works = true ∧ granted = true ∧ granted' = false ∨ works = false ∧ granted' = granted)

theorem limiter_apply {granted : Bool} {e : Op} (howes : (granting guard job).owes granted e) :
    (∃ ip, remote job = some ip ∧ Checked guard input s (e.apply b sha256 input s).2 ip (guard.works e)
        ((granting guard job).next granted e (e.apply b sha256 input s).1)) ∨
      Unchecked guard input s (e.apply b sha256 input s).2 (guard.works e) granted
        ((granting guard job).next granted e (e.apply b sha256 input s).1) := by
  obtain ⟨hcheck, hwork, hcleanup⟩ := howes
  have hother (hlimiter : guard.limiter (e.apply b sha256 input s).2 = guard.limiter s)
      (hworks : guard.works e = false)
      (hnext : (granting guard job).next granted e (e.apply b sha256 input s).1 = granted) :
      Unchecked guard input s (e.apply b sha256 input s).2 (guard.works e) granted
        ((granting guard job).next granted e (e.apply b sha256 input s).1) :=
    ⟨Or.inl hlimiter, Or.inr ⟨hworks, hnext⟩⟩
  cases e with
  | checkRelay ip =>
    cases guard with
    | write => exact Or.inr (hother rfl rfl rfl)
    | relay => exact Or.inl ⟨ip, hcheck ip rfl, rfl, rfl, rfl⟩
  | checkWrite ip =>
    cases guard with
    | write => exact Or.inl ⟨ip, hcheck ip rfl, rfl, rfl, rfl⟩
    | relay => exact Or.inr (hother rfl rfl rfl)
  | cleanupLimiters maxIdle =>
    obtain rfl := hcleanup maxIdle rfl
    cases guard with
    | write => exact Or.inr ⟨Or.inr rfl, Or.inr ⟨rfl, rfl⟩⟩
    | relay => exact Or.inr ⟨Or.inr rfl, Or.inr ⟨rfl, rfl⟩⟩
  | putChunk hash data =>
    cases guard with
    | write => exact Or.inr ⟨Or.inl rfl, Or.inl ⟨rfl, hwork rfl, rfl⟩⟩
    | relay => exact Or.inr (hother rfl rfl rfl)
  | send out =>
    cases guard with
    | write => exact Or.inr (hother rfl rfl rfl)
    | relay =>
      by_cases hout : out.origin = .forwarded
      · exact Or.inr ⟨Or.inl rfl, Or.inl ⟨decide_eq_true hout, hwork (decide_eq_true hout), if_pos hout⟩⟩
      · exact Or.inr (hother rfl (decide_eq_false hout) (if_neg hout))
  | insert node =>
    have hlimiter : guard.limiter ((Op.insert node).apply b sha256 input s).2 = guard.limiter s := by
      dsimp only [Op.apply]
      split
      · cases guard <;> rfl
      · cases guard <;> rfl
    cases guard <;> exact Or.inr (hother hlimiter rfl rfl)
  | savePeersBatch peers =>
    have hlimiter : guard.limiter ((Op.savePeersBatch peers).apply b sha256 input s).2 = guard.limiter s := by
      dsimp only [Op.apply]
      split
      · cases guard <;> rfl
      · cases guard <;> rfl
    cases guard <;> exact Or.inr (hother hlimiter rfl rfl)
  | addProvider key id pk addrs ttl =>
    have hlimiter : guard.limiter ((Op.addProvider key id pk addrs ttl).apply b sha256 input s).2 =
        guard.limiter s := by
      dsimp only [Op.apply]
      split
      · cases guard <;> rfl
      · split
        · cases guard <;> rfl
        · cases guard <;> rfl
    cases guard <;> exact Or.inr (hother hlimiter rfl rfl)
  | _ => cases guard <;> exact Or.inr (hother rfl rfl rfl)

end

/-! ## What is granted and what is done -/

section

variable {ν : Type} [DecidableEq ν] (guard : Guard) (v : ν) (ip : IpAddr)

/-- The task runs on the node, for a message from the address. -/
def Asked (label : Label ν) : Prop := label.node = v ∧ remote label.job = some ip

instance (label : Label ν) : Decidable (Asked v ip label) := inferInstanceAs (Decidable (_ ∧ _))

/-- What the node did for the address. -/
def worksFor (trace : List (Event ν)) : Nat :=
  trace.countP fun event => Asked v ip event.label ∧ guard.works event.op = true

/-- The grants of the address that are not used up. -/
def grantsFor (gs : List (Label ν × Bool)) : Nat := gs.countP fun t => Asked v ip t.1 ∧ t.2 = true

/-- The last clock reading of the node, and how often it started again. -/
structure Watch where
  now : Nat
  restarts : Nat

def watch : Observer (NetState ν) (Label ν) Input (Start ν) Op Op.Result Watch where
  begins x _ w := match x with
    | .restart node _ => if node = v then { w with restarts := w.restarts + 1 } else w
    | _ => w
  sees label _ input _ _ w := if label.node = v then { w with now := input.now } else w

/-- The clock of the node does not go back. -/
def Ticks (label : Label ν) (_ : Op) (input : Input) (s : NetState ν × Watch) : Prop :=
  label.node = v → s.2.now ≤ input.now

instance (label : Label ν) (e : Op) (input : Input) (s : NetState ν × Watch) :
    Decidable (Ticks v label e input s) :=
  inferInstanceAs (Decidable (_ → _))

/-- What was done, what is granted and what the bucket holds is at most what the buckets held at first,
and what they have gained since. -/
structure Limited (rate burst : UInt32) (since : Nat) (s : NetState ν × Watch) (gs : List (Label ν × Bool))
    (buckets : IpAddr → Bucket ℚ) : Prop where
  represents : Represents (guard.limiter (s.1.nodes v)) buckets s.2.now
  rate_eq : (guard.limiter (s.1.nodes v)).ratePerSecond = rate
  burst_eq : (guard.limiter (s.1.nodes v)).burst = burst
  spent : (worksFor guard v ip s.1.trace + grantsFor v ip gs : ℚ) +
    refill (rate.toNat : ℚ) burst.toNat (buckets ip) (seconds s.2.now) ≤
      (s.2.restarts + 1) * burst.toNat + rate.toNat * (seconds s.2.now - seconds since)

theorem grantsFor_set {gs : List (Label ν × Bool)} {i : Nat} {label : Label ν} {granted : Bool}
    (hi : gs[i]? = some (label, granted)) (granted' : Bool) :
    grantsFor v ip (gs.set i (label, granted')) + (if Asked v ip label ∧ granted = true then 1 else 0) =
      grantsFor v ip gs + if Asked v ip label ∧ granted' = true then 1 else 0 := by
  obtain ⟨hlt, hget⟩ := List.getElem?_eq_some_iff.mp hi
  have hle := List.boole_getElem_le_countP (p := fun t : Label ν × Bool => Asked v ip t.1 ∧ t.2 = true) hlt
  unfold grantsFor
  rw [List.countP_set hlt]
  rw [hget] at hle ⊢
  simp only [decide_eq_true_eq] at hle ⊢
  omega

section

variable {l : RateLimiter} {buckets : IpAddr → Bucket ℚ} {last now : Nat}

theorem represents_fresh (rate burst : UInt32) (since : Nat) :
    Represents (.new rate burst) (fun _ => ⟨burst.toNat, seconds since⟩) since where
  held := by rintro _ _ ⟨⟩
  full := fun _ _ later hlater => min_eq_right (le_add_of_nonneg_right
    (mul_nonneg (sub_nonneg.mpr (seconds_mono hlater)) (Nat.cast_nonneg _)))

theorem represents_later (h : Represents l buckets last) (hnow : last ≤ now) : Represents l buckets now where
  held := by
    intro ip b hb
    obtain ⟨hs, hused, hlast, htokens⟩ := h.held ip b hb
    exact ⟨hs, hused, by omega, htokens⟩
  full := fun ip hb later hlater => h.full ip hb later (by omega)

/-- A check takes from the bucket of its address what it grants. -/
theorem check_takes (h : Represents l buckets last) (hnow : last ≤ now) (ip : IpAddr) :
    ∃ buckets', Represents (l.check now ip).2 buckets' now ∧
      (l.check now ip).2.ratePerSecond = l.ratePerSecond ∧ (l.check now ip).2.burst = l.burst ∧
      refill (l.ratePerSecond.toNat : ℚ) l.burst.toNat (buckets' ip) (seconds now) +
          (if (l.check now ip).1 then 1 else 0) =
        refill (l.ratePerSecond.toNat : ℚ) l.burst.toNat (buckets ip) (seconds now) ∧
      ∀ ip', ip' ≠ ip → buckets' ip' = buckets ip' := by
  refine ⟨_, h.check hnow ip, ?_, ?_, ?_, fun ip' hip => Function.update_of_ne hip _ _⟩
  · rw [h.check_eq hnow ip]
  · rw [h.check_eq hnow ip]
  · rw [h.check_eq hnow ip, Function.update_self]
    exact refill_request _ _ _ _

theorem tokens_nonneg (h : Represents l buckets now) (ip : IpAddr) :
    0 ≤ refill (l.ratePerSecond.toNat : ℚ) l.burst.toNat (buckets ip) (seconds now) := by
  cases hb : l.buckets ip with
  | none =>
    rw [h.full ip hb now le_rfl]
    exact Nat.cast_nonneg _
  | some b =>
    obtain ⟨hs, -, hlast, htokens⟩ := h.held ip b hb
    rw [hs]
    exact refill_nonneg (Nat.cast_nonneg _) (Nat.cast_nonneg _) htokens (seconds_mono hlast)

end

section

variable {guard v ip} {net : Network ν} {rate burst : UInt32} {since : Nat} {s : NetState ν × Watch}
  {gs : List (Label ν × Bool)} {buckets : IpAddr → Bucket ℚ}

theorem Limited.apply (h : Limited guard v ip rate burst since s gs buckets)
    (hidle : (burst.toNat : ℚ) ≤ seconds (300 * 10 ^ 9) * rate.toNat) {label : Label ν} {granted : Bool}
    {e : Op} {input : Input} {i : Nat} (hclock : Ticks v label e input s)
    (howes : (granting guard label.job).owes granted e) (hi : gs[i]? = some (label, granted)) :
    ∃ buckets, Limited guard v ip rate burst since ((net.apply label e input s.1).2,
        (watch v).sees label e input (net.apply label e input s.1).1 s.1 s.2)
      (gs.set i (label, (granting guard label.job).next granted e (net.apply label e input s.1).1))
      buckets := by
  obtain ⟨hrep, hrate, hburst, hspent⟩ := h
  have hset := grantsFor_set v ip hi ((granting guard label.job).next granted e (net.apply label e input s.1).1)
  have hworks : worksFor guard v ip (net.apply label e input s.1).2.trace =
      worksFor guard v ip s.1.trace + if Asked v ip label ∧ guard.works e = true then 1 else 0 := by
    simp only [worksFor, Network.apply, List.countP_append, List.countP_singleton, decide_eq_true_eq]
  by_cases hnode : label.node = v
  · subst hnode
    have hnow : s.2.now ≤ input.now := hclock rfl
    have hnodes : (net.apply label e input s.1).2.nodes label.node =
        (e.apply (net.ctx label.node).build (net.ctx label.node).crates.sha256 input
          (s.1.nodes label.node)).2 := Function.update_self _ _ _
    have hwatch : (watch label.node).sees label e input (net.apply label e input s.1).1 s.1 s.2 =
        { s.2 with now := input.now } := if_pos rfl
    have hlater {works grants : Nat} {tokens : ℚ}
        (htotal : (works + grants : ℚ) + tokens ≤ worksFor guard label.node ip s.1.trace +
          grantsFor label.node ip gs + refill (rate.toNat : ℚ) burst.toNat (buckets ip) (seconds input.now)) :
        (works + grants : ℚ) + tokens ≤ (s.2.restarts + 1) * burst.toNat +
          rate.toNat * (seconds input.now - seconds since) := by
      have hgain : refill (rate.toNat : ℚ) burst.toNat (buckets ip) (seconds input.now) ≤ _ :=
        refill_later (Nat.cast_nonneg _) (seconds_mono hnow)
      linarith
    rw [hwatch]
    rcases limiter_apply (net.ctx label.node).build (net.ctx label.node).crates.sha256 input
      (s.1.nodes label.node) howes with ⟨ip', hremote, hidle', hlimiter, hgranted⟩ | ⟨hlimiter, hmove⟩
    · obtain ⟨buckets', hrep', hrate', hburst', htaken, hothers⟩ := check_takes hrep hnow ip'
      rw [hrate, hburst] at htaken
      change (granting guard label.job).next granted e (net.apply label e input s.1).1 = _ at hgranted
      rw [hgranted] at hset ⊢
      simp only [hidle', Bool.false_eq_true, and_false, if_false, Nat.add_zero] at hworks
      refine ⟨buckets', by rw [hnodes, hlimiter]; exact hrep', by rw [hnodes, hlimiter, hrate', hrate],
        by rw [hnodes, hlimiter, hburst', hburst], ?_⟩
      apply hlater
      rw [hworks]
      by_cases hip : ip = ip'
      · subst hip
        have hasked : Asked label.node ip label := ⟨rfl, hremote⟩
        simp only [hasked, true_and] at hset
        have hgrants : ((_ : Nat) : ℚ) ≤ ((_ : Nat) : ℚ) :=
          Nat.cast_le.mpr (Nat.le_of_add_right_le (le_of_eq hset))
        rw [Nat.cast_add, Nat.cast_ite, Nat.cast_one, Nat.cast_zero] at hgrants
        linarith
      · have hasked : ¬ Asked label.node ip label := fun h => hip (Option.some.inj (h.2.symm.trans hremote))
        simp only [hasked, false_and, if_false, Nat.add_zero] at hset
        rw [hset, hothers ip hip]
    · have hrep' : Represents (guard.limiter ((net.apply label e input s.1).2.nodes label.node)) buckets
          input.now ∧ (guard.limiter ((net.apply label e input s.1).2.nodes label.node)).ratePerSecond = rate ∧
          (guard.limiter ((net.apply label e input s.1).2.nodes label.node)).burst = burst := by
        rw [hnodes]
        rcases hlimiter with hlimiter | hlimiter
        · rw [hlimiter]
          exact ⟨represents_later hrep hnow, hrate, hburst⟩
        · rw [hlimiter]
          exact ⟨hrep.cleanup hnow (by rw [hrate, hburst]; exact hidle), hrate, hburst⟩
      refine ⟨buckets, hrep'.1, hrep'.2.1, hrep'.2.2, ?_⟩
      apply hlater
      have hsum : worksFor guard label.node ip (net.apply label e input s.1).2.trace +
          grantsFor label.node ip (gs.set i (label, (granting guard label.job).next granted e
            (net.apply label e input s.1).1)) =
          worksFor guard label.node ip s.1.trace + grantsFor label.node ip gs := by
        rcases hmove with ⟨hdoes, hgranted, hgranted'⟩ | ⟨hdoes, hgranted'⟩
        · change (granting guard label.job).next granted e (net.apply label e input s.1).1 = _ at hgranted'
          rw [hgranted'] at hset ⊢
          simp only [hdoes, hgranted, and_true, Bool.false_eq_true, and_false, if_false] at hworks hset
          omega
        · change (granting guard label.job).next granted e (net.apply label e input s.1).1 = _ at hgranted'
          rw [hgranted'] at hset ⊢
          simp only [hdoes, Bool.false_eq_true, and_false, if_false] at hworks
          omega
      rw [← Nat.cast_add, hsum, Nat.cast_add]
  · have hasked : ¬ Asked v ip label := fun h => hnode h.1
    have hsame : (net.apply label e input s.1).2.nodes v = s.1.nodes v :=
      Function.update_of_ne (Ne.symm hnode) _ _
    have hwatch : (watch v).sees label e input (net.apply label e input s.1).1 s.1 s.2 = s.2 := if_neg hnode
    simp only [hasked, false_and, if_false, Nat.add_zero] at hset hworks
    rw [hwatch]
    refine ⟨buckets, ?_, ?_, ?_, ?_⟩
    · rw [hsame]
      exact hrep
    · rw [hsame]
      exact hrate
    · rw [hsame]
      exact hburst
    · dsimp only
      rw [hset, hworks]
      exact hspent

/-- A node that starts again has a full bucket for each address. -/
theorem Limited.start (h : Limited guard v ip rate burst since s gs buckets) {x : Start ν} {s' : NetState ν}
    {label : Label ν} {t : NodeTask Unit} (hx : net.start x s.1 = some (s', label, t)) :
    ∃ buckets, Limited guard v ip rate burst since (s', (watch v).begins x s.1 s.2)
      (gs ++ [(label, false)]) buckets := by
  obtain ⟨hrep, hrate, hburst, hspent⟩ := h
  obtain ⟨-, -, rfl, -⟩ := start_some net hx
  have hgrants : grantsFor v ip (gs ++ [(label, false)]) = grantsFor v ip gs := by
    simp only [grantsFor, List.countP_append, List.countP_singleton, Bool.false_eq_true, and_false,
      decide_false, if_false, Nat.add_zero]
  have hquiet (hbegins : (watch v).begins x s.1 s.2 = s.2)
      (hbegun : (net.begun s.1 x).trace = s.1.trace ∧ (net.begun s.1 x).nodes v = s.1.nodes v) :
      Limited guard v ip rate burst since ({ net.begun s.1 x with started := s.1.started + 1 },
        (watch v).begins x s.1 s.2) (gs ++ [(label, false)]) buckets := by
    rw [hbegins]
    refine ⟨?_, ?_, ?_, ?_⟩
    · dsimp only
      rw [hbegun.2]
      exact hrep
    · dsimp only
      rw [hbegun.2]
      exact hrate
    · dsimp only
      rw [hbegun.2]
      exact hburst
    · dsimp only
      rw [hbegun.1, hgrants]
      exact hspent
  cases x with
  | restart node now =>
    by_cases hnode : node = v
    · subst hnode
      have hbegins : (watch node).begins (.restart node now) s.1 s.2 =
          { s.2 with restarts := s.2.restarts + 1 } := if_pos rfl
      have hlimiter : guard.limiter ((net.begun s.1 (.restart node now)).nodes node) = .new rate burst := by
        rw [← hrate, ← hburst]
        simp only [Network.begun, Function.update_self]
        cases guard <;> rfl
      have hfull : refill (rate.toNat : ℚ) burst.toNat ⟨burst.toNat, seconds s.2.now⟩ (seconds s.2.now) ≤
          burst.toNat := refill_le
      have htokens := tokens_nonneg hrep ip
      rw [hbegins]
      refine ⟨_, by rw [hlimiter]; exact represents_fresh rate burst s.2.now, by rw [hlimiter]; rfl,
        by rw [hlimiter]; rfl, ?_⟩
      rw [hgrants]
      rw [hrate, hburst] at htokens
      simp only [Network.begun]
      push_cast
      linarith
    · exact ⟨buckets, hquiet (if_neg hnode) ⟨rfl, Function.update_of_ne (Ne.symm hnode) _ _⟩⟩
  | _ => exact ⟨buckets, hquiet rfl ⟨rfl, rfl⟩⟩

end

end

end TesserasDht.GuardedWork
