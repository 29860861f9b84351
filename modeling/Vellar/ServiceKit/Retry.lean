import Vellar.Lib.LinkedPages

/-!
# Vellar.ServiceKit.Retry — attempts with a back-off

`packages/service-kit/src/retry.ts` without a signal: the sleeps between the attempts change nothing, so their lengths are left out.
-/

set_option autoImplicit false

namespace Vellar.Retry

open Effect LinkedPages

structure JsError where
  name : String
  message : String
deriving DecidableEq

/-- `new Error(message)` -/
def JsError.plain (message : String) : JsError := ⟨"Error", message⟩

def maxRetriesExceededError (attempts : ℕ) (cause : JsError) : JsError :=
  ⟨"MaxRetriesExceededError", "Failed after " ++ toString attempts ++ " attempt" ++ (if attempts = 1 then "" else "s") ++ ": " ++
    cause.message⟩

variable {σ α : Type}

section Definitions

variable (maxAttempts : ℕ) (isRetryable : JsError → Bool) (fn : Effect JsError σ α)

/-- The loop, by the attempts that are left. -/
def attempts : ℕ → Effect JsError σ α
  | 0 => throw (maxRetriesExceededError maxAttempts (.plain "undefined"))
  | left + 1 => attempt fn fun err =>
    if isRetryable err = false then throw err
    else if left = 0 then throw (maxRetriesExceededError maxAttempts err)
    else attempts left

def retryWithBackoff : Effect JsError σ α :=
  if maxAttempts < 1 then throw ⟨"RangeError", "maxAttempts must be ≥ 1"⟩ else attempts maxAttempts isRetryable fn maxAttempts

end Definitions

variable {maxAttempts : ℕ} {isRetryable : JsError → Bool} {fn : Effect JsError σ α} {cost : σ → ℕ}

theorem within_attempts (hfn : Within cost 1 fn) (left : ℕ) : Within cost left (attempts maxAttempts isRetryable fn left) := by
  induction left with
  | zero => exact within_throw
  | succ left ih =>
    have hnext : Within cost (1 + left) (attempts maxAttempts isRetryable fn (left + 1)) := by
      refine hfn.attempt fun err => ?_
      split
      · exact within_throw.mono (Nat.zero_le _)
      · split
        · exact within_throw.mono (Nat.zero_le _)
        · exact ih
    exact hnext.mono (Nat.add_comm 1 left).le

/-- **Retrying ends**, after `maxAttempts` attempts at most. -/
theorem within_retry (hfn : Within cost 1 fn) : Within cost maxAttempts (retryWithBackoff maxAttempts isRetryable fn) := by
  unfold retryWithBackoff
  split
  · exact within_throw.mono (Nat.zero_le _)
  · exact within_attempts hfn maxAttempts

end Vellar.Retry
