import Mathlib.Algebra.Group.Nat.Defs
import Mathlib.Tactic.Common

/-!
# Retry policy and delays (`adapters/onedrive/retry.py`)

Delays are Python floats, so `Float`. Two steps may raise: `2 ** (attempt - 1)`
becomes a float, which it does below `2 ** 1024`, and `time.sleep` refuses a
length that is negative, no number or too long.

* `computeDelay`, `sleeps`: the delay after a failed attempt, and whether it is
  slept.
* `computeDelay_overflow`: from attempt 1025 on there is no delay without a hint.
-/
namespace Nightfall.OneDrive

/-- mirrors src/nightfall_photo_ingress/adapters/onedrive/retry.py:39-52 -/
structure RetryPolicy where
  maxAttempts : Int := 4
  baseDelay : Float := 1.0
  maxDelay : Float := 60.0

/-- `min(a, b)` of two floats: the first, unless the second is smaller. -/
def pyMin (a b : Float) : Float := if b < a then b else a

/-- `max(a, b)` of two floats. -/
def pyMax (a b : Float) : Float := if a < b then b else a

/-- mirrors src/nightfall_photo_ingress/adapters/onedrive/retry.py:64-71 -/
def classifyStatus (status : Nat) : Bool := [429, 500, 502, 503, 504].contains status

/-- Of a header that is there: the number it holds, or the seconds until its date.
mirrors src/nightfall_photo_ingress/adapters/onedrive/retry.py:74-107 -/
def parseRetryAfter (header : Option Float) : Option Float := header.map (pyMax 0.0)

/-- `base_delay * 2 ** (attempt - 1)`, `none` for the `OverflowError` of a power
that no float holds. -/
def backoff (policy : RetryPolicy) (attempt : Nat) : Option Float :=
  if attempt - 1 < 1024 then some (policy.baseDelay * Float.ofNat (2 ^ (attempt - 1))) else none

/-- mirrors src/nightfall_photo_ingress/adapters/onedrive/retry.py:110-141 -/
def computeDelay (attempt : Nat) (retryAfter : Option Float) (policy : RetryPolicy)
    (jitter : Float) : Option Float :=
  match retryAfter with
  | some seconds => some (pyMin seconds policy.maxDelay)
  | none => (backoff policy attempt).map fun delay => pyMin (delay + jitter) policy.maxDelay

/-- `time.sleep(delay)` returns: `ValueError` for a negative length or no number,
`OverflowError` from `2 ** 63` nanoseconds on. -/
def sleepable (delay : Float) : Bool :=
  decide ((0.0 : Float) ≤ delay) && decide (delay * 1000000000.0 < 9223372036854775808.0)

/-- The delay after a failed attempt is computed and slept without an exception. -/
def sleeps (policy : RetryPolicy) (attempt : Nat) (retryAfter : Option Float) (jitter : Float) :
    Bool :=
  (computeDelay attempt retryAfter policy jitter).any sleepable

theorem computeDelay_overflow {attempt : Nat} (h : 1025 ≤ attempt) (policy : RetryPolicy)
    (jitter : Float) : computeDelay attempt none policy jitter = none := by
  have hpower : ¬ attempt - 1 < 1024 := by omega
  simp [computeDelay, backoff, hpower]

theorem not_sleeps_overflow {attempt : Nat} (h : 1025 ≤ attempt) (policy : RetryPolicy)
    (jitter : Float) : sleeps policy attempt none jitter = false := by
  rw [sleeps, computeDelay_overflow h]
  rfl

end Nightfall.OneDrive
