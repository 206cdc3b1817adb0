import TesserasDht.Lib.TokenBucket
import TesserasDht.Code.RateLimit

/-!
# What the rate limiter grants

Seen from the checks, each address has a token bucket that was full at the start. `cleanup` only forgets
buckets that have filled up again.
-/

open Lib.TokenBucket

namespace TesserasDht.RateLimit

inductive Call
  | check (now : Nat) (ip : IpAddr)
  | cleanup (now : Nat)
deriving DecidableEq

def Call.now : Call → Nat
  | .check now _ => now
  | .cleanup now => now

/-- The call is a check, of one of these addresses. -/
def Call.isCheckOf (p : IpAddr → Bool) : Call → Bool
  | .check _ ip => p ip
  | .cleanup _ => false

def seconds (nanos : Nat) : ℚ := nanos / 10 ^ 9

/-- The checks of a run, with their times in seconds and their results. -/
def results (maxIdle : Nat) : RateLimiter → List Call → List (ℚ × IpAddr × Bool)
  | _, [] => []
  | l, .check now ip :: rest => (seconds now, ip, (l.check now ip).1) :: results maxIdle (l.check now ip).2 rest
  | l, .cleanup now :: rest => results maxIdle (l.cleanup now maxIdle) rest

def requests : List Call → List (ℚ × IpAddr)
  | [] => []
  | .check now ip :: rest => (seconds now, ip) :: requests rest
  | .cleanup _ :: rest => requests rest

def Sorted (calls : List Call) : Prop := calls.Pairwise fun c c' => c.now ≤ c'.now

theorem seconds_sub {a b : Nat} (h : a ≤ b) : seconds (b - a) = seconds b - seconds a := by
  rw [seconds, seconds, seconds, Nat.cast_sub h, sub_div]

theorem seconds_mono {a b : Nat} (h : a ≤ b) : seconds a ≤ seconds b :=
  div_le_div_of_nonneg_right (Nat.cast_le.mpr h) (by norm_num)

theorem seconds_nonneg (a : Nat) : 0 ≤ seconds a := div_nonneg (Nat.cast_nonneg a) (by norm_num)

/-! ## The limiter and its buckets -/

/-- What the limiter holds for an address, if anything, is the bucket. From now on the bucket of any other
address is full. -/
structure Represents (l : RateLimiter) (s : IpAddr → Bucket ℚ) (now : Nat) : Prop where
  held : ∀ ip b, l.buckets ip = some b → s ip = ⟨b.tokens, seconds b.lastRefill⟩ ∧
    b.lastUsed = b.lastRefill ∧ b.lastRefill ≤ now ∧ 0 ≤ b.tokens
  full : ∀ ip, l.buckets ip = none → ∀ later, now ≤ later →
    refill (l.ratePerSecond.toNat : ℚ) l.burst.toNat (s ip) (seconds later) = l.burst.toNat

section

variable {l : RateLimiter} {s : IpAddr → Bucket ℚ} {last now : Nat}

theorem represents_new (rate burst : UInt32) :
    Represents (RateLimiter.new rate burst) (fun _ => ⟨burst.toNat, 0⟩) 0 where
  held := by
    intro ip b hb
    cases hb
  full := by
    intro ip _ later _
    exact min_eq_right (le_add_of_nonneg_right
      (mul_nonneg (by rw [sub_zero]; exact seconds_nonneg later) (Nat.cast_nonneg _)))

/-- The bucket that a check refills. -/
theorem Represents.refill (h : Represents l s last) (hnow : last ≤ now) (ip : IpAddr) :
    min (((l.buckets ip).getD ⟨l.burst.toNat, now, now⟩).tokens +
        ((now - ((l.buckets ip).getD ⟨l.burst.toNat, now, now⟩).lastRefill : Nat) : ℚ) / 10 ^ 9 *
          (l.ratePerSecond.toNat : ℚ)) (l.burst.toNat : ℚ) =
      refill (l.ratePerSecond.toNat : ℚ) l.burst.toNat (s ip) (seconds now) := by
  cases hb : l.buckets ip with
  | none =>
    rw [h.full ip hb now hnow]
    simp
  | some b =>
    obtain ⟨hs, -, hlast, -⟩ := h.held ip b hb
    rw [hs, Option.getD_some, Lib.TokenBucket.refill, ← seconds_sub (by omega)]
    rfl

theorem Represents.check_eq (h : Represents l s last) (hnow : last ≤ now) (ip : IpAddr) :
    l.check now ip =
      ((request (l.ratePerSecond.toNat : ℚ) l.burst.toNat (s ip) (seconds now)).1,
        { l with buckets := Function.update l.buckets ip (some
          ⟨(request (l.ratePerSecond.toNat : ℚ) l.burst.toNat (s ip) (seconds now)).2.tokens, now, now⟩) }) := by
  unfold RateLimiter.check
  dsimp only
  rw [h.refill hnow ip]
  unfold request
  split <;> rfl

theorem Represents.tokens_nonneg (h : Represents l s last) (hnow : last ≤ now) (ip : IpAddr) :
    0 ≤ (request (l.ratePerSecond.toNat : ℚ) l.burst.toNat (s ip) (seconds now)).2.tokens := by
  have hrefill : 0 ≤ Lib.TokenBucket.refill (l.ratePerSecond.toNat : ℚ) l.burst.toNat (s ip) (seconds now) := by
    cases hb : l.buckets ip with
    | none =>
      rw [h.full ip hb now hnow]
      exact Nat.cast_nonneg _
    | some b =>
      obtain ⟨hs, -, hlast, htokens⟩ := h.held ip b hb
      rw [hs]
      exact refill_nonneg (Nat.cast_nonneg _) (Nat.cast_nonneg _) htokens (seconds_mono (by omega))
  unfold request
  split
  next hone => exact sub_nonneg.mpr hone
  next => exact hrefill

theorem Represents.check (h : Represents l s last) (hnow : last ≤ now) (ip : IpAddr) :
    Represents (l.check now ip).2 (Function.update s ip
      (request (l.ratePerSecond.toNat : ℚ) l.burst.toNat (s ip) (seconds now)).2) now := by
  rw [h.check_eq hnow ip]
  constructor
  · intro ip' b hb
    dsimp only at hb
    by_cases hip : ip' = ip
    · subst hip
      rw [Function.update_self] at hb ⊢
      cases hb
      exact ⟨request_snd, rfl, le_rfl, h.tokens_nonneg hnow ip'⟩
    · rw [Function.update_of_ne hip] at hb ⊢
      obtain ⟨hs, hused, hlast, htokens⟩ := h.held ip' b hb
      exact ⟨hs, hused, by omega, htokens⟩
  · intro ip' hb later hlater
    dsimp only at hb
    by_cases hip : ip' = ip
    · subst hip
      rw [Function.update_self] at hb
      cases hb
    · rw [Function.update_of_ne hip] at hb ⊢
      exact h.full ip' hb later (by omega)

/-- What is forgotten has been idle for so long that it is full. -/
theorem Represents.cleanup (h : Represents l s last) (hnow : last ≤ now) {maxIdle : Nat}
    (hidle : (l.burst.toNat : ℚ) ≤ seconds maxIdle * l.ratePerSecond.toNat) :
    Represents (l.cleanup now maxIdle) s now := by
  constructor
  · intro ip b hb
    obtain ⟨hb, -⟩ := Option.filter_eq_some_iff.mp hb
    obtain ⟨hs, hused, hlast, htokens⟩ := h.held ip b hb
    exact ⟨hs, hused, by omega, htokens⟩
  · intro ip hb later hlater
    cases hheld : l.buckets ip with
    | none => exact h.full ip hheld later (by omega)
    | some b =>
      obtain ⟨hs, hused, hlast, htokens⟩ := h.held ip b hheld
      have hold : maxIdle ≤ now - b.lastUsed := by
        by_contra hlt
        have hkept : (l.buckets ip).filter (fun bucket => now - bucket.lastUsed < maxIdle) = some b := by
          rw [hheld, Option.filter_some_pos (by simpa using hlt)]
        cases hkept.symm.trans hb
      rw [hs]
      refine refill_of_idle (Nat.cast_nonneg _) htokens hidle ?_
      rw [← seconds_sub (by omega)]
      exact seconds_mono (by omega)

end

/-! ## Runs -/

theorem results_eq {maxIdle : Nat} (calls : List Call) {l : RateLimiter} {s : IpAddr → Bucket ℚ} {last : Nat}
    (h : Represents l s last) (hidle : (l.burst.toNat : ℚ) ≤ seconds maxIdle * l.ratePerSecond.toNat)
    (hlast : ∀ c ∈ calls, last ≤ c.now) (hsorted : Sorted calls) :
    results maxIdle l calls = serve (l.ratePerSecond.toNat : ℚ) l.burst.toNat s (requests calls) := by
  induction calls generalizing l s last with
  | nil => rfl
  | cons c rest ih =>
    obtain ⟨hfirst, hrest⟩ := List.pairwise_cons.mp hsorted
    have hnow := hlast c List.mem_cons_self
    cases c with
    | check now ip =>
      have hnow : last ≤ now := hnow
      have hstep := ih (h.check hnow ip) (by rw [h.check_eq hnow]; exact hidle) hfirst hrest
      rw [results, requests, serve, hstep, h.check_eq hnow]
    | cleanup now => exact ih (h.cleanup hnow hidle) hidle hfirst hrest

theorem requests_filter (p : IpAddr → Bool) (calls : List Call) :
    requests (calls.filter (Call.isCheckOf p)) = (requests calls).filter fun r => p r.2 := by
  induction calls with
  | nil => rfl
  | cons c rest ih =>
    cases c with
    | check now ip =>
      cases hp : p ip with
      | true => simp [Call.isCheckOf, requests, hp, ih]
      | false => simp [Call.isCheckOf, requests, hp, ih]
    | cleanup now => simp [Call.isCheckOf, requests, ih]

theorem requests_checks (calls : List Call) :
    requests (calls.filter (Call.isCheckOf fun _ => true)) = requests calls := by
  rw [requests_filter, List.filter_true]

theorem mem_requests {calls : List Call} {r : ℚ × IpAddr} (h : r ∈ requests calls) :
    ∃ c ∈ calls, r.1 = seconds c.now := by
  induction calls with
  | nil => cases h
  | cons c rest ih =>
    cases c with
    | check now ip =>
      rcases List.mem_cons.mp h with rfl | h
      · exact ⟨_, List.mem_cons_self, rfl⟩
      · obtain ⟨c, hc, hr⟩ := ih h
        exact ⟨c, List.mem_cons_of_mem _ hc, hr⟩
    | cleanup now =>
      obtain ⟨c, hc, hr⟩ := ih h
      exact ⟨c, List.mem_cons_of_mem _ hc, hr⟩

theorem Sorted.requests {calls : List Call} (h : Sorted calls) :
    (requests calls).Pairwise fun r r' => r.1 ≤ r'.1 := by
  induction calls with
  | nil => exact .nil
  | cons c rest ih =>
    obtain ⟨hfirst, hrest⟩ := List.pairwise_cons.mp h
    cases c with
    | check now ip =>
      refine List.pairwise_cons.mpr ⟨fun r hr => ?_, ih hrest⟩
      obtain ⟨c, hc, hr⟩ := mem_requests hr
      rw [hr]
      exact seconds_mono (hfirst c hc)
    | cleanup now => exact ih hrest

/-- If an idle bucket fills up within `maxIdle`, then an address is granted at most `burst + rate * T` checks
in any `T` seconds, whatever `cleanup` runs in between, and whatever other addresses do. -/
theorem limiter_bounded (rate burst : UInt32) (maxIdle : Nat)
    (hidle : (burst.toNat : ℚ) ≤ rate.toNat * seconds maxIdle) (calls : List Call) (hsorted : Sorted calls) :
    (∀ ip (start T : ℚ), 0 ≤ T →
      (granted ip start (start + T) (results maxIdle (.new rate burst) calls) : ℚ) ≤ burst.toNat + rate.toNat * T) ∧
    (∀ calls', Sorted calls' →
      calls'.filter (Call.isCheckOf fun _ => true) = calls.filter (Call.isCheckOf fun _ => true) →
      results maxIdle (.new rate burst) calls' = results maxIdle (.new rate burst) calls) ∧
    ∀ ip, (results maxIdle (.new rate burst) calls).filter (fun r => r.2.1 = ip) =
      results maxIdle (.new rate burst) (calls.filter (Call.isCheckOf fun ip' => ip' = ip)) := by
  have heq (calls : List Call) (hsorted : Sorted calls) : results maxIdle (.new rate burst) calls =
      serve (rate.toNat : ℚ) burst.toNat (fun _ => ⟨burst.toNat, 0⟩) (requests calls) :=
    results_eq calls (represents_new rate burst) (by rw [mul_comm]; exact hidle) (fun c _ => Nat.zero_le _) hsorted
  refine ⟨fun ip start T hT => ?_, fun calls' hsorted' hchecks => ?_, fun ip => ?_⟩
  · rw [heq calls hsorted]
    refine (granted_le (Nat.cast_nonneg _) (Nat.cast_nonneg _) (Nat.cast_nonneg _) (fun r hr => ?_)
      hsorted.requests (by linarith)).trans (by rw [add_sub_cancel_left, mul_comm])
    obtain ⟨c, -, hr⟩ := mem_requests hr
    rw [hr]
    exact seconds_nonneg c.now
  · rw [heq calls' hsorted', heq calls hsorted, ← requests_checks calls', hchecks, requests_checks]
  · rw [heq calls hsorted, heq _ (hsorted.filter _), serve_filter ip _ _ rfl, requests_filter]

def pauseCalls : List Call :=
  [.check 0 (.v4 10 0 0 1), .check 0 (.v4 10 0 0 2), .cleanup (400 * 10 ^ 9), .check (400 * 10 ^ 9) (.v4 10 0 0 1)]

/-- The constants of the transport. -/
theorem limiter_bounded_transport :
    (granted (.v4 10 0 0 1) 0 1 (results (300 * 10 ^ 9) (.new 50 10) pauseCalls) : ℚ) ≤ 60 := by
  have hrate : (50 : UInt32).toNat = 50 := rfl
  have hburst : (10 : UInt32).toNat = 10 := rfl
  have h := (limiter_bounded 50 10 (300 * 10 ^ 9) (by rw [hrate, hburst]; norm_num [seconds]) pauseCalls
    (by simp [pauseCalls, Sorted, Call.now])).1 (.v4 10 0 0 1) 0 1 zero_le_one
  rw [hrate, hburst, zero_add] at h
  exact h.trans (by norm_num)

end TesserasDht.RateLimit
