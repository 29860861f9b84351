import Vellar.Lib.Machine
import Vellar.Lib.Refill

/-!
# Vellar.Gateway.TokenBucket — the token bucket of a tenant

`TokenBucketLimiter` of `services/api-gateway/src/token-bucket.ts`, with exact numbers of tokens.  The bucket of a key is a
`Refill.Bucket`; `limits_kept`: in every run it bounds each window, keys are apart and a retry hint suffices.
-/

set_option autoImplicit false

namespace Vellar.Gateway.TokenBucket

open Machine
open Refill (Payment Bounded)

structure TokenBucketOptions where
  capacity : ℚ
  refillRatePerSecond : ℚ

structure BucketState where
  tokens : ℚ
  /-- In milliseconds. -/
  lastRefillTime : ℤ
deriving DecidableEq

abbrev Buckets := String → Option BucketState

structure Consumption where
  allowed : Bool
  retryAfterSeconds : Option ℤ
  remainingTokens : ℤ
deriving DecidableEq

/-- A call of `tryConsume` at the time `now`. -/
structure Call where
  now : ℤ
  key : String
  tokensToConsume : ℚ
deriving DecidableEq

section Limiter

variable (options : TokenBucketOptions)

/-- The state of a bucket before tokens are taken: full when it is new. -/
def refilled (now : ℤ) : Option BucketState → BucketState
  | none => ⟨options.capacity, now⟩
  | some state =>
    let elapsedSeconds : ℚ := (now - state.lastRefillTime) / 1000
    let refilledTokens := elapsedSeconds * options.refillRatePerSecond
    ⟨min options.capacity (state.tokens + refilledTokens), now⟩

/-- The answer to a call, and what it leaves of the bucket. -/
def consume (call : Call) (bucket : Option BucketState) : Consumption × BucketState :=
  let state := refilled options call.now bucket
  if call.tokensToConsume ≤ state.tokens then
    let state := { state with tokens := state.tokens - call.tokensToConsume }
    (⟨true, none, ⌊state.tokens⌋⟩, state)
  else
    let deficit := call.tokensToConsume - state.tokens
    let retryAfterSeconds := ⌈deficit / options.refillRatePerSecond⌉
    (⟨false, some (max 1 retryAfterSeconds), 0⟩, state)

def tryConsume (call : Call) (buckets : Buckets) : Consumption × Buckets :=
  let (consumption, state) := consume options call (buckets call.key)
  (consumption, Function.update buckets call.key (some state))

/-! ## Runs -/

def step (buckets : Buckets) (call : Call) : Buckets := (tryConsume options call buckets).2

/-- The buckets after the calls. -/
def after (calls : List Call) : Buckets := run (step options) (fun _ => none) calls

/-- What the call is told after the calls. -/
def answer (calls : List Call) (call : Call) : Consumption := (tryConsume options call (after options calls)).1

/-- The calls that were allowed. -/
def allowed (calls : List Call) : List Call :=
  logOf (step options) (fun buckets call => if (tryConsume options call buckets).1.allowed then [call] else [])
    (fun _ => none) calls

/-- The cost that is allowed for a key from `x` to `y`. -/
def allowedIn (calls : List Call) (key : String) (x y : ℚ) : ℚ :=
  SlidingWindow.total Call.tokensToConsume (fun c => c.key = key ∧ x ≤ c.now ∧ c.now ≤ y) (allowed options calls)

/-- What the limiter keeps to in a run. -/
structure LimitsKept (calls : List Call) : Prop where
  /-- A window is at most the capacity and what is refilled in it. -/
  window : ∀ key (x y : ℚ), x ≤ y →
    allowedIn options calls key x y ≤ options.capacity + options.refillRatePerSecond * ((y - x) / 1000)
  level : ∀ pre, pre <+: calls → ∀ key state, after options pre key = some state →
    0 ≤ state.tokens ∧ state.tokens ≤ options.capacity
  /-- The calls on other keys do not matter. -/
  apart : ∀ pre call post, calls = pre ++ call :: post →
    answer options pre call = answer options (pre.filter fun c => c.key = call.key) call
  /-- A refused call is allowed when the time it was told is over, if nothing came in between. -/
  retry : ∀ pre call rest, calls = pre ++ call :: rest → call.tokensToConsume ≤ options.capacity →
    (answer options pre call).allowed = false → ∃ s, (answer options pre call).retryAfterSeconds = some s ∧
      ∀ mid again post, rest = mid ++ again :: post → (∀ c ∈ mid, c.key ≠ call.key) → again.key = call.key →
        again.tokensToConsume = call.tokensToConsume → again.now = call.now + 1000 * s →
        (answer options (pre ++ call :: mid) again).allowed = true

end Limiter

/-! ## One call -/

section Laws

variable {options : TokenBucketOptions} {calls pre mid : List Call} {call : Call} {buckets : Buckets} {key : String}

theorem refilled_lastRefillTime (now : ℤ) (bucket : Option BucketState) :
    (refilled options now bucket).lastRefillTime = now := by
  cases bucket <;> rfl

theorem refilled_some (now : ℤ) (state : BucketState) : (refilled options now (some state)).tokens =
    min options.capacity (state.tokens + (now - state.lastRefillTime : ℚ) / 1000 * options.refillRatePerSecond) := rfl

theorem consume_enough {bucket : Option BucketState} (h : call.tokensToConsume ≤ (refilled options call.now bucket).tokens) :
    (consume options call bucket).1.allowed = true ∧ (consume options call bucket).2 =
      ⟨(refilled options call.now bucket).tokens - call.tokensToConsume, call.now⟩ := by
  unfold consume
  simp only [if_pos h, refilled_lastRefillTime, and_self]

theorem consume_short {bucket : Option BucketState} (h : (refilled options call.now bucket).tokens < call.tokensToConsume) :
    (consume options call bucket).1 = ⟨false, some (max 1 ⌈(call.tokensToConsume -
        (refilled options call.now bucket).tokens) / options.refillRatePerSecond⌉), 0⟩ ∧
      (consume options call bucket).2 = refilled options call.now bucket := by
  unfold consume
  simp only [if_neg (not_le.mpr h), and_self]

/-- A call touches the bucket of its key only. -/
theorem step_other (h : key ≠ call.key) : step options buckets call key = buckets key := Function.update_of_ne h ..

theorem step_self : step options buckets call call.key = some (consume options call (buckets call.key)).2 :=
  Function.update_self ..

theorem after_snoc : after options (calls ++ [call]) = step options (after options calls) call := run_snoc ..

theorem after_append : after options (pre ++ mid) = run (step options) (after options pre) mid := run_append ..

theorem allowed_snoc : allowed options (calls ++ [call]) =
    allowed options calls ++ if (answer options calls call).allowed then [call] else [] := by
  rw [allowed, logOf_append]
  simp only [logOf, List.append_nil]
  rfl

/-- **Keys are apart**: the bucket of a key is what the calls on it make of it. -/
theorem after_filter : after options calls key = after options (calls.filter fun c => c.key = key) key := by
  induction calls using List.reverseRecOn with
  | nil => rfl
  | append_singleton calls call ih =>
    rw [List.filter_append]
    by_cases hkey : call.key = key
    · subst hkey
      rw [List.filter_cons_of_pos (by simp), List.filter_nil, after_snoc, after_snoc, step_self, step_self, ih]
    · rw [List.filter_cons_of_neg (by simpa using hkey), List.filter_nil, List.append_nil, after_snoc,
        step_other (Ne.symm hkey), ih]

theorem answer_eq : answer options pre call = (consume options call (after options pre call.key)).1 := rfl

/-! ## The bucket of a key -/

/-- The payments of a key, in seconds. -/
def payments (key : String) (calls : List Call) : List (Payment ℚ) :=
  (calls.filter fun c => c.key = key).map fun c => ⟨c.now / 1000, c.tokensToConsume⟩

/-- The bucket of a state, in seconds. -/
def BucketState.bucket (state : BucketState) : Refill.Bucket ℚ := ⟨state.tokens, state.lastRefillTime / 1000⟩

theorem refilled_bucket (now : ℤ) (state : BucketState) : (refilled options now (some state)).bucket =
    Refill.refill options.capacity options.refillRatePerSecond (now / 1000) state.bucket := by
  unfold refilled BucketState.bucket Refill.refill
  simp only [sub_div]

/-- The allowed calls on a key are paid out of its bucket, whose time is that of a call. -/
def Funded (options : TokenBucketOptions) (calls : List Call) (key : String) : Prop :=
  match after options calls key with
  | none => payments key (allowed options calls) = []
  | some state => Bounded options.capacity options.refillRatePerSecond state.bucket (payments key (allowed options calls)) ∧
    ∃ c ∈ calls, c.now = state.lastRefillTime

theorem Funded.bounded (hcapacity : 0 ≤ options.capacity) (hrate : 0 ≤ options.refillRatePerSecond)
    (h : Funded options calls key) {now : ℤ} (hnow : ∀ c ∈ calls, c.now ≤ now) :
    Bounded options.capacity options.refillRatePerSecond (refilled options now (after options calls key)).bucket
      (payments key (allowed options calls)) := by
  unfold Funded at h
  cases hstate : after options calls key with
  | none =>
    rw [hstate] at h
    rw [h]
    exact Refill.bounded_full hcapacity hrate _
  | some state =>
    rw [hstate] at h
    obtain ⟨hbounded, c, hc, htime⟩ := h
    rw [refilled_bucket]
    refine hbounded.refill hrate ?_
    have hle : ((state.lastRefillTime : ℤ) : ℚ) ≤ now := by
      rw [← htime]
      exact_mod_cast hnow c hc
    exact div_le_div_of_nonneg_right hle (by norm_num)

/-- **Step**: the bucket of every key stays funded. -/
theorem Funded.snoc (hcapacity : 0 ≤ options.capacity) (hrate : 0 ≤ options.refillRatePerSecond)
    (h : Funded options calls key) (hnow : ∀ c ∈ calls, c.now ≤ call.now) (hcost : 0 ≤ call.tokensToConsume) :
    Funded options (calls ++ [call]) key := by
  have hpayments : ∀ l l', payments key (l ++ l') = payments key l ++ payments key l' := by
    intro l l'
    rw [payments, List.filter_append, List.map_append]
    rfl
  unfold Funded
  rw [after_snoc, allowed_snoc, hpayments]
  by_cases hkey : call.key = key
  · subst hkey
    have hbefore := h.bounded hcapacity hrate hnow
    have htime : (refilled options call.now (after options calls call.key)).bucket.time = call.now / 1000 := by
      rw [BucketState.bucket, refilled_lastRefillTime]
    rw [step_self, answer_eq]
    by_cases henough : call.tokensToConsume ≤ (refilled options call.now (after options calls call.key)).tokens
    · obtain ⟨hallowed, hleft⟩ := consume_enough henough
      have hspent := hbefore.spend hrate hcost henough
      have hbucket : (consume options call (after options calls call.key)).2.bucket =
          Refill.spend call.tokensToConsume (refilled options call.now (after options calls call.key)).bucket := by
        rw [hleft, Refill.spend, htime]
        rfl
      have hone : payments call.key [call] = [⟨call.now / 1000, call.tokensToConsume⟩] := by simp [payments]
      rw [htime] at hspent
      rw [if_pos hallowed, hone]
      exact ⟨hbucket ▸ hspent, call, by simp, by rw [hleft]⟩
    · obtain ⟨hrefused, hleft⟩ := consume_short (not_le.mp henough)
      have hnone : payments call.key [] = [] := rfl
      rw [hrefused, if_neg Bool.false_ne_true, hnone, List.append_nil, hleft]
      exact ⟨hbefore, call, by simp, (refilled_lastRefillTime _ _).symm⟩
  · rw [step_other (Ne.symm hkey)]
    have hnone : payments key (if (answer options calls call).allowed then [call] else []) = [] := by
      split_ifs
      · simp [payments, hkey]
      · rfl
    rw [hnone, List.append_nil]
    unfold Funded at h
    cases hstate : after options calls key with
    | none => simpa [hstate] using h
    | some state =>
      rw [hstate] at h
      obtain ⟨hbounded, c, hc, htime⟩ := h
      exact ⟨hbounded, c, List.mem_append_left _ hc, htime⟩

/-- **Run**: the bucket of every key is funded in every run. -/
theorem funded (hcapacity : 0 ≤ options.capacity) (hrate : 0 ≤ options.refillRatePerSecond)
    (hcost : ∀ c ∈ calls, 0 ≤ c.tokensToConsume) (hclock : calls.Pairwise (·.now ≤ ·.now)) (key : String) :
    Funded options calls key := by
  induction calls using List.reverseRecOn with
  | nil => rfl
  | append_singleton calls call ih =>
    rw [List.pairwise_append] at hclock
    have hbefore := ih (fun c hc => hcost c (List.mem_append_left _ hc)) hclock.1
    exact hbefore.snoc hcapacity hrate (fun c hc => hclock.2.2 c hc call (by simp)) (hcost call (by simp))

/-! ## The limits -/

theorem paid_payments {x y : ℚ} : Refill.paid (x / 1000) (y / 1000) (payments key calls) =
    SlidingWindow.total Call.tokensToConsume (fun c => c.key = key ∧ x ≤ c.now ∧ c.now ≤ y) calls := by
  rw [Refill.paid, payments, SlidingWindow.total_map, SlidingWindow.total_filter]
  unfold SlidingWindow.total
  simp only [div_le_div_iff_of_pos_right (by norm_num : (0 : ℚ) < 1000)]

/-- The bucket of a key is left alone by calls on other keys. -/
theorem after_others (h : ∀ c ∈ mid, c.key ≠ key) : after options (pre ++ mid) key = after options pre key := by
  have hnone : mid.filter (fun c => c.key = key) = [] := List.filter_eq_nil_iff.mpr fun c hc => by simpa using h c hc
  rw [after_filter, List.filter_append, hnone, List.append_nil, ← after_filter]

/-- The hint is long enough for what is missing. -/
theorem hint_suffices (hrate : 0 < options.refillRatePerSecond) (t c : ℚ) :
    c ≤ t + (max 1 ⌈(c - t) / options.refillRatePerSecond⌉ : ℤ) * options.refillRatePerSecond := by
  have hceil : (c - t) / options.refillRatePerSecond ≤ (max 1 ⌈(c - t) / options.refillRatePerSecond⌉ : ℤ) :=
    (Int.le_ceil _).trans (by exact_mod_cast le_max_right _ _)
  have hproduct := (div_le_iff₀ hrate).mp hceil
  linarith

/-- **The limits are kept** in every run under a clock that does not run backwards. -/
theorem limits_kept (hcapacity : 0 < options.capacity) (hrate : 0 < options.refillRatePerSecond)
    (hcost : ∀ c ∈ calls, 0 < c.tokensToConsume) (hclock : calls.Pairwise (·.now ≤ ·.now)) :
    LimitsKept options calls where
  window := by
    intro key x y hxy
    have hfunded := funded hcapacity.le hrate.le (fun c hc => (hcost c hc).le) hclock key
    have hpaid : allowedIn options calls key x y = Refill.paid (x / 1000) (y / 1000) (payments key (allowed options calls)) :=
      paid_payments.symm
    have hlength : x / 1000 ≤ y / 1000 := div_le_div_of_nonneg_right hxy (by norm_num)
    unfold Funded at hfunded
    rw [hpaid]
    cases hstate : after options calls key with
    | none =>
      rw [hstate] at hfunded
      rw [hfunded]
      have hgrown : 0 ≤ options.refillRatePerSecond * ((y - x) / 1000) :=
        mul_nonneg hrate.le (div_nonneg (sub_nonneg.mpr hxy) (by norm_num))
      exact add_nonneg hcapacity.le hgrown
    | some state =>
      rw [hstate] at hfunded
      have hwindow := hfunded.1.window _ _ hlength
      rwa [← sub_div, mul_comm] at hwindow
  level := by
    rintro pre ⟨post, rfl⟩ key state hstate
    have hfunded := funded hcapacity.le hrate.le (fun c hc => (hcost c (List.mem_append_left _ hc)).le)
      (List.pairwise_append.mp hclock).1 key
    unfold Funded at hfunded
    rw [hstate] at hfunded
    exact ⟨hfunded.1.level_nonneg, hfunded.1.level_le⟩
  apart := by
    intro pre call post _
    rw [answer_eq, answer_eq, after_filter]
  retry := by
    intro pre call rest _ hcost hrefused
    have hshort : (refilled options call.now (after options pre call.key)).tokens < call.tokensToConsume := by
      by_contra henough
      rw [answer_eq, (consume_enough (not_lt.mp henough)).1] at hrefused
      cases hrefused
    obtain ⟨hanswer, hleft⟩ := consume_short hshort
    refine ⟨_, by rw [answer_eq, hanswer], ?_⟩
    intro mid again post _ hothers hkey hsame hnow
    have hbucket : after options (pre ++ call :: mid) again.key =
        some (refilled options call.now (after options pre call.key)) := by
      rw [hkey, List.append_cons, after_others hothers, after_snoc, step_self, hleft]
    have hrefill : (refilled options again.now (after options (pre ++ call :: mid) again.key)).tokens =
        min options.capacity ((refilled options call.now (after options pre call.key)).tokens +
          (again.now - call.now : ℚ) / 1000 * options.refillRatePerSecond) := by
      rw [hbucket, refilled_some, refilled_lastRefillTime]
    have hhint := hint_suffices hrate (refilled options call.now (after options pre call.key)).tokens call.tokensToConsume
    refine (consume_enough ?_).1
    rw [hrefill, hsame, hnow]
    refine le_min hcost (hhint.trans_eq ?_)
    push_cast
    ring

end Laws

/-- Three tokens, one more each second. -/
def perSecond : TokenBucketOptions := ⟨3, 1⟩

/-- Two tenants; the second call of the first one comes too early, the third when its hint is over. -/
def twoTenants : List Call := [⟨0, "a", 2⟩, ⟨100, "b", 3⟩, ⟨500, "a", 2⟩, ⟨1500, "a", 2⟩]

theorem limits_kept_twoTenants :
    (allowed perSecond twoTenants).map Call.now = [0, 100, 1500] ∧ LimitsKept perSecond twoTenants :=
  ⟨by decide +kernel, limits_kept (by decide) (by decide) (by decide) (by decide)⟩

end Vellar.Gateway.TokenBucket
