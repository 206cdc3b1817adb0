import Mathlib

/-!
# Token buckets

A bucket holds at most `burst` tokens and gains `rate` tokens per unit of time. A request takes one token
if there is one.
-/

namespace Lib.TokenBucket

structure Bucket (K : Type) where
  tokens : K
  last : K

section

variable {K : Type} [Field K] [LinearOrder K] (rate burst : K)

/-- The tokens at the time `now`. -/
def refill (b : Bucket K) (now : K) : K := min (b.tokens + (now - b.last) * rate) burst

def request (b : Bucket K) (now : K) : Bool × Bucket K :=
  if 1 ≤ refill rate burst b now then
    (true, ⟨refill rate burst b now - 1, now⟩)
  else
    (false, ⟨refill rate burst b now, now⟩)

end

/-! ## One bucket -/

section

variable {K : Type} [Field K] [LinearOrder K] {rate burst : K} {b : Bucket K} {now : K}

theorem refill_le : refill rate burst b now ≤ burst := min_le_right _ _

@[simp] theorem request_last : (request rate burst b now).2.last = now := by
  unfold request
  split <;> rfl

theorem request_snd : (request rate burst b now).2 = ⟨(request rate burst b now).2.tokens, now⟩ := by
  unfold request
  split <;> rfl

/-- What a request leaves and what it takes is what was there. -/
theorem request_tokens : (request rate burst b now).2.tokens + (if (request rate burst b now).1 then 1 else 0) =
    refill rate burst b now := by
  unfold request
  split <;> simp

/-- Two buckets that hold the same now answer alike from now on. -/
theorem request_congr {b' : Bucket K} (h : refill rate burst b now = refill rate burst b' now) :
    request rate burst b now = request rate burst b' now := by
  unfold request
  rw [h]

variable [IsStrictOrderedRing K]

theorem refill_nonneg (hburst : 0 ≤ burst) (hrate : 0 ≤ rate) (hb : 0 ≤ b.tokens) (hnow : b.last ≤ now) :
    0 ≤ refill rate burst b now :=
  le_min (add_nonneg hb (mul_nonneg (sub_nonneg.mpr hnow) hrate)) hburst

theorem request_tokens_nonneg (hburst : 0 ≤ burst) (hrate : 0 ≤ rate) (hb : 0 ≤ b.tokens)
    (hnow : b.last ≤ now) : 0 ≤ (request rate burst b now).2.tokens := by
  unfold request
  split
  next h => exact sub_nonneg.mpr h
  next => exact refill_nonneg hburst hrate hb hnow

theorem refill_later {later : K} (hrate : 0 ≤ rate) (hlater : now ≤ later) :
    refill rate burst b later ≤ refill rate burst b now + rate * (later - now) := by
  have hgain : 0 ≤ rate * (later - now) := mul_nonneg hrate (sub_nonneg.mpr hlater)
  rw [refill, refill, ← min_add_add_right]
  exact min_le_min (le_of_eq (by ring)) (le_add_of_nonneg_right hgain)

/-- What a bucket holds right after a request, and what the request took. -/
theorem refill_request (rate burst : K) (b : Bucket K) (now : K) :
    refill rate burst (request rate burst b now).2 now +
    (if (request rate burst b now).1 then 1 else 0) = refill rate burst b now := by
  have htokens : (request rate burst b now).2.tokens + _ = refill rate burst b now := request_tokens
  have hle : (request rate burst b now).2.tokens ≤ burst := by
    have hburst : refill rate burst b now ≤ burst := refill_le
    split at htokens <;> linarith
  rw [← htokens, refill, request_last, sub_self, zero_mul, add_zero, min_eq_left hle]

/-- After a long enough pause a bucket is full. -/
theorem refill_of_idle {idle : K} (hrate : 0 ≤ rate) (hb : 0 ≤ b.tokens) (hidle : burst ≤ idle * rate)
    (hnow : idle ≤ now - b.last) : refill rate burst b now = burst := by
  apply min_eq_right
  calc burst ≤ idle * rate := hidle
    _ ≤ (now - b.last) * rate := mul_le_mul_of_nonneg_right hnow hrate
    _ ≤ b.tokens + (now - b.last) * rate := le_add_of_nonneg_left hb

end

/-! ## A bucket for each key -/

section

variable {I K : Type} [DecidableEq I] [Field K] [LinearOrder K]

/-- The requests of a list with their results. -/
def serve (rate burst : K) : (I → Bucket K) → List (K × I) → List (K × I × Bool)
  | _, [] => []
  | s, (now, i) :: rest =>
    let r := request rate burst (s i) now
    (now, i, r.1) :: serve rate burst (Function.update s i r.2) rest

/-- How many requests of `i` are granted between `lo` and `hi`. -/
def granted (i : I) (lo hi : K) (l : List (K × I × Bool)) : Nat :=
  l.countP fun x => x.2.1 = i ∧ x.2.2 = true ∧ lo ≤ x.1 ∧ x.1 ≤ hi

variable {rate burst : K}

/-- The results of one key depend on its own requests. -/
theorem serve_filter (i : I) (s s' : I → Bucket K) (hs : s i = s' i) (requests : List (K × I)) :
    (serve rate burst s requests).filter (fun x => x.2.1 = i) =
      serve rate burst s' (requests.filter fun x => x.2 = i) := by
  induction requests generalizing s s' with
  | nil => rfl
  | cons request rest ih =>
    obtain ⟨now, j⟩ := request
    by_cases hj : j = i
    · subst hj
      rw [List.filter_cons_of_pos (by simp), serve, serve, List.filter_cons_of_pos (by simp), ← hs]
      exact congrArg _ (ih _ _ (by rw [Function.update_self, Function.update_self]))
    · rw [List.filter_cons_of_neg (by simpa using hj), serve, List.filter_cons_of_neg (by simpa using hj)]
      exact ih _ _ (by rw [Function.update_of_ne (Ne.symm hj), hs])

variable {i : I} {lo hi : K}

theorem granted_nil (s : I → Bucket K) : granted i lo hi (serve rate burst s []) = 0 := rfl

theorem granted_eq_zero {requests : List (K × I)} (h : ∀ r ∈ requests, hi < r.1) (s : I → Bucket K) :
    granted i lo hi (serve rate burst s requests) = 0 := by
  induction requests generalizing s with
  | nil => rfl
  | cons request rest ih =>
    obtain ⟨now, j⟩ := request
    obtain ⟨hnow, hrest⟩ := List.forall_mem_cons.mp h
    rw [serve, granted, List.countP_cons, if_neg (by simp [not_le.mpr hnow])]
    exact ih hrest _

theorem granted_cons (s : I → Bucket K) (now : K) (j : I) (rest : List (K × I)) :
    granted i lo hi (serve rate burst s ((now, j) :: rest)) =
      granted i lo hi (serve rate burst (Function.update s j (request rate burst (s j) now).2) rest) +
        if j = i ∧ (request rate burst (s j) now).1 = true ∧ lo ≤ now ∧ now ≤ hi then 1 else 0 := by
  rw [serve, granted, List.countP_cons]
  simp only [decide_eq_true_eq]
  rfl

variable [IsStrictOrderedRing K] (hburst : 0 ≤ burst) (hrate : 0 ≤ rate)
include hburst hrate

/-- From now on a bucket grants what it holds and what it gains. -/
theorem granted_le_tokens {s : I → Bucket K} {requests : List (K × I)} (hs : 0 ≤ (s i).tokens)
    (hlast : ∀ r ∈ requests, (s i).last ≤ r.1) (hsorted : requests.Pairwise fun r r' => r.1 ≤ r'.1)
    (hhi : (s i).last ≤ hi) :
    (granted i lo hi (serve rate burst s requests) : K) ≤ (s i).tokens + (hi - (s i).last) * rate := by
  induction requests generalizing s with
  | nil =>
    rw [granted_nil, Nat.cast_zero]
    exact add_nonneg hs (mul_nonneg (sub_nonneg.mpr hhi) hrate)
  | cons r rest ih =>
    obtain ⟨now, j⟩ := r
    obtain ⟨hfirst, hrest⟩ := List.pairwise_cons.mp hsorted
    obtain ⟨hnow, hlast'⟩ := List.forall_mem_cons.mp hlast
    rcases lt_or_ge hi now with hlate | hearly
    · rw [granted_eq_zero (by
        intro r hr
        rcases List.mem_cons.mp hr with rfl | hr
        · exact hlate
        · exact lt_of_lt_of_le hlate (hfirst r hr)), Nat.cast_zero]
      exact add_nonneg hs (mul_nonneg (sub_nonneg.mpr hhi) hrate)
    rw [granted_cons]
    by_cases hj : j = i
    · subst hj
      have hstep := ih (s := Function.update s j (request rate burst (s j) now).2)
        (by rw [Function.update_self]; exact request_tokens_nonneg hburst hrate hs hnow)
        (by rw [Function.update_self, request_last]; exact hfirst) hrest
        (by rw [Function.update_self, request_last]; exact hearly)
      rw [Function.update_self, request_last] at hstep
      have htaken : ((if j = j ∧ (request rate burst (s j) now).1 = true ∧ lo ≤ now ∧ now ≤ hi then 1 else 0 : Nat) : K) ≤
          if (request rate burst (s j) now).1 then 1 else 0 := by
        by_cases hg : (request rate burst (s j) now).1 = true
        · rw [if_pos hg]
          split <;> simp
        · rw [if_neg hg, if_neg (by simp [hg]), Nat.cast_zero]
      have hrefill : refill rate burst (s j) now ≤ (s j).tokens + (now - (s j).last) * rate := min_le_left _ _
      have htokens : (request rate burst (s j) now).2.tokens + _ = refill rate burst (s j) now := request_tokens
      rw [Nat.cast_add]
      linarith
    · have hsame : Function.update s j (request rate burst (s j) now).2 i = s i :=
        Function.update_of_ne (Ne.symm hj) _ _
      have hstep := ih (s := Function.update s j (request rate burst (s j) now).2) (by rwa [hsame])
        (by rwa [hsame]) hrest (by rwa [hsame])
      rw [hsame] at hstep
      rw [if_neg (by simp [hj]), Nat.add_zero]
      exact hstep

/-- The bound over any interval: by induction on the requests, the first one in the interval finds at most
`burst` tokens. -/
theorem granted_le {s : I → Bucket K} {requests : List (K × I)} (hs : 0 ≤ (s i).tokens)
    (hlast : ∀ r ∈ requests, (s i).last ≤ r.1) (hsorted : requests.Pairwise fun r r' => r.1 ≤ r'.1)
    (hlohi : lo ≤ hi) :
    (granted i lo hi (serve rate burst s requests) : K) ≤ burst + (hi - lo) * rate := by
  have hwindow : 0 ≤ (hi - lo) * rate := mul_nonneg (sub_nonneg.mpr hlohi) hrate
  induction requests generalizing s with
  | nil =>
    rw [granted_nil, Nat.cast_zero]
    exact add_nonneg hburst hwindow
  | cons r rest ih =>
    obtain ⟨now, j⟩ := r
    obtain ⟨hfirst, hrest⟩ := List.pairwise_cons.mp hsorted
    obtain ⟨hnow, hlast'⟩ := List.forall_mem_cons.mp hlast
    by_cases hj : j = i
    · subst hj
      have hs' : 0 ≤ (Function.update s j (request rate burst (s j) now).2 j).tokens := by
        rw [Function.update_self]
        exact request_tokens_nonneg hburst hrate hs hnow
      have hlast'' : ∀ r ∈ rest, (Function.update s j (request rate burst (s j) now).2 j).last ≤ r.1 := by
        rw [Function.update_self, request_last]
        exact hfirst
      rcases lt_or_ge now lo with hbefore | hin
      · rw [granted_cons, if_neg (by simp [not_le.mpr hbefore]), Nat.add_zero]
        exact ih hs' hlast'' hrest
      rcases lt_or_ge hi now with hlate | hearly
      · rw [granted_eq_zero (by
          intro r hr
          rcases List.mem_cons.mp hr with rfl | hr
          · exact hlate
          · exact lt_of_lt_of_le hlate (hfirst r hr)), Nat.cast_zero]
        exact add_nonneg hburst hwindow
      -- The rest grants what this request leaves, and what is gained until `hi`.
      have hspent : (granted j lo hi _ : K) ≤ _ := granted_le_tokens hburst hrate hs' hlast'' hrest
        (by rw [Function.update_self, request_last]; exact hearly)
      rw [Function.update_self, request_last] at hspent
      have htokens : (request rate burst (s j) now).2.tokens + _ = refill rate burst (s j) now := request_tokens
      have hfull : refill rate burst (s j) now ≤ burst := refill_le
      have hgain : (hi - now) * rate ≤ (hi - lo) * rate :=
        mul_le_mul_of_nonneg_right (by linarith) hrate
      rw [granted_cons, Nat.cast_add]
      by_cases hg : (request rate burst (s j) now).1 = true
      · rw [if_pos hg] at htokens
        rw [if_pos ⟨rfl, hg, hin, hearly⟩, Nat.cast_one]
        linarith
      · rw [if_neg hg] at htokens
        rw [if_neg (by simp [hg]), Nat.cast_zero]
        linarith
    · have hsame : Function.update s j (request rate burst (s j) now).2 i = s i :=
        Function.update_of_ne (Ne.symm hj) _ _
      rw [granted_cons, if_neg (by simp [hj]), Nat.add_zero]
      exact ih (by rwa [hsame]) (by rwa [hsame]) hrest

end

end Lib.TokenBucket
