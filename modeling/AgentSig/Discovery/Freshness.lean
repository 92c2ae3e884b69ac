import AgentSig.Profiles.ClockTracker

/-!
# Freshness of a directory

What a response says of how long its evidence may be used. Time is measured on the monotonic clock from
the receipt of the response.

## Main definitions

* `Reading`: a number of the platform
* `DirectoryFreshnessPolicy`, `DirectoryFreshness`: the bounds, and what a response says
* `isDirectoryFresh`: whether evidence may be used
-/

namespace AgentSig.Discovery

open Commons Profiles StructuredFields

/-- A number that may be infinite or not a number. -/
inductive Reading
  | finite (value : ℚ)
  | infinite (positive : Bool)
  | nan
  deriving DecidableEq, Repr

/-- Whether a number is greater than a finite one. -/
def Reading.exceeds : Reading → ℚ → Bool
  | .finite value, bound => bound < value
  | .infinite positive, _ => positive
  | .nan, _ => false

/-- `DirectoryFreshnessPolicy`, resolved. -/
structure DirectoryFreshnessPolicy where
  fallbackSeconds : ℕ
  maximumLifetimeSeconds : ℕ
  bounded : fallbackSeconds ≤ 300 ∧ maximumLifetimeSeconds ≤ 300
  deriving DecidableEq, Repr

/-- `DirectoryFreshness`. -/
structure DirectoryFreshness where
  persist : Bool
  remainingAtReceiptMs : Reading
  receivedMonotonicMs : Reading
  deriving DecidableEq, Repr

/-- `isDirectoryFresh`, at a finite number. -/
def isDirectoryFresh (A : Rounding) (freshness : DirectoryFreshness) (nowMonotonicMs : ℚ) : Bool :=
  match freshness.receivedMonotonicMs, freshness.remainingAtReceiptMs with
  | .finite received, .finite remaining =>
    let elapsed := A.round (nowMonotonicMs - received)
    freshness.persist ∧ 0 ≤ elapsed ∧ 0 < remaining ∧ remaining ≤ 300000 ∧ elapsed < remaining
  | _, _ => false

end AgentSig.Discovery
